import Unit00.Invariant
import Unit00.Areas

/-!
The system calls that work on the address space of their caller do to its pages
and records what the reference system does, whatever they do to frames, tables
and reference counts on the way; no other process sees anything of them.
-/
namespace Unit00.Services
open Unit00.Memory Unit00.Execution Unit00.Frame Unit00.Paging Unit00.Paging.PTEntry Unit00.Trees Unit00.Ownership
open Unit00.Mirror Unit00.Space Unit00.Pages Unit00.Growing Unit00.Ranges Unit00.Forking Unit00.Access Unit00.Mmu Unit00.Invariant
open Unit00.Task Unit00.Scheduler Unit00.Syscall Unit00.Machine Unit00.Steps Unit00.Areas
open Unit00.Eager (Page Pages Image Writable writeByte pageUp)

/-- The pages and records of a process. -/
def imageOf (m : Mm) (g : Ledger) (p : Process) : Image := ⟨space m g p.page_table.root,p.heap_start,p.heap_end,p.mmap_areas⟩

/-- The kernel worked for the process that runs: it has a new image, and the rest is
    as it was. -/
structure Serves (exact : Bool) (base : Nat) (me : Process) (k k' : Kernel) (g g' : Ledger) (a : Image)
    (input : Nat → BitVec 8) : Prop where
  kept : Kept k k'
  good : Good exact base k'.mm g'
  aside : Aside me.page_table.root k.mm k'.mm g g'
  image : ∃ me', k'.process_list k.current = some me' ∧ imageOf k'.mm g' me' = a
  input : k'.input = input

section
variable {exact : Bool} {base : Nat} {k k' : Kernel} {g : Ledger} {me : Process}

/-- Work on memory alone. -/
theorem Serves.of_acts {mm : Mm} {g' : Ledger} {s : Pages} (running : k.process_list k.current = some me)
    (acts : Acts exact base me.page_table.root k.mm mm g g' s) :
    Serves exact base me k { k with mm := mm } g g' { imageOf k.mm g me with pages := s } k.input := by
  refine ⟨kept_of_equal rfl rfl rfl rfl,acts.good,acts.aside,⟨me,running,?_⟩,rfl⟩
  rw [imageOf,acts.pages]
  rfl

/-- Work that changes neither memory nor the process nor the console input. -/
theorem Serves.idle (good : Good exact base k.mm g) (running : k.process_list k.current = some me) (kept : Kept k k')
    (memory : k'.mm = k.mm) (table : k'.process_list = k.process_list) (input : k'.input = k.input) :
    Serves exact base me k k' g g (imageOf k.mm g me) k.input := by
  refine ⟨kept,by rw [memory]; exact good,by rw [memory]; exact Aside.refl _ _ _,⟨me,by rw [table]; exact running,?_⟩,input⟩
  rw [memory]

theorem Serves.refl (good : Good exact base k.mm g) (running : k.process_list k.current = some me) :
    Serves exact base me k k g g (imageOf k.mm g me) k.input :=
  Serves.idle good running (Std.Refl.refl k) rfl rfl rfl

/-- Work on memory and on the records of the process that runs. -/
theorem Serves.of_update (mm : Mm) {g' : Ledger} {s : Pages} {me' : Process} (running : k.process_list k.current = some me)
    (acts : Acts exact base me.page_table.root k.mm mm g g' s) (same : Same me me') :
    Serves exact base me k { k with mm := mm, process_list := Function.update k.process_list k.current (some me') } g g'
      ⟨s,me'.heap_start,me'.heap_end,me'.mmap_areas⟩ k.input := by
  refine ⟨⟨rfl,rfl,rfl,?_,?_,?_⟩,acts.good,acts.aside,⟨me',Function.update_self _ _ _,?_⟩,rfl⟩
  · intro i other
    exact Function.update_of_ne other _ _
  · intro p slot
    rw [running,Option.some.injEq] at slot
    subst slot
    exact ⟨me',Function.update_self _ _ _,same⟩
  · intro empty
    rw [running] at empty
    cases empty
  · rw [imageOf,same.page_table,acts.pages]

/-! ### Buffers of the caller -/

theorem run_user_store (va : Nat) (value : BitVec 8) (k : Kernel) :
    (user_store va value).run k = match translate k.hart k.mm.mem .supervisor .store va with
      | some pa => .ok ⟨⟩ { k with mm := { k.mm with mem := store8 k.mm.mem pa value } }
      | none => .error (.kernel_trap 15 (BitVec.ofNat 64 va)) k := by
  unfold user_store
  rw [run_seq (show (get : K Kernel).run k = .ok k k from rfl)]
  cases translate k.hart k.mm.mem .supervisor .store va <;> rfl

/-- A byte that the kernel stores for the process that runs: the hart lets it pass only when the page may be written. -/
theorem user_store_acts (good : Good exact base k.mm g) {r : Nat} (home : root_of k.hart.satp = r) {va : Nat}
    {value : BitVec 8} (there : UserPage g r (pageOf va)) (run : (user_store va value).run k = .ok ⟨⟩ k') :
    ∃ mm, k' = { k with mm := mm } ∧ Acts exact base r k.mm mm g g (writeByte va value (space k.mm g r)) := by
  obtain ⟨e,leaf⟩ := there
  rw [run_user_store,translate_leaf good home leaf] at run
  by_cases fits : (canonical va && !(k.hart.reserved_fault && is_cow e) && permits .supervisor .store e) = true
  · rw [if_pos fits] at run
    have w : is_w e = true := by
      simp only [permits,Bool.and_eq_true] at fits
      exact fits.2.1
    refine ⟨{ k.mm with mem := store8 k.mm.mem (ppn_to_addr e+va%4096) value },?_,store_page good leaf w value⟩
    cases run
    rfl
  · rw [if_neg fits] at run
    cases run

/-- A run of bytes that the kernel stores for the process that runs. -/
theorem user_write_acts (good : Good exact base k.mm g) {r : Nat} (home : root_of k.hart.satp = r) {va : Nat}
    {bytes : List (BitVec 8)} (there : ∀ i, i < bytes.length → UserPage g r (pageOf (va+i)))
    (run : (user_write va bytes).run k = .ok ⟨⟩ k') :
    ∃ mm, k' = { k with mm := mm } ∧ Acts exact base r k.mm mm g g (Eager.writeList va bytes (space k.mm g r)) := by
  have final := forM_range'_ok (fun i k' => ∃ mm, k' = { k with mm := mm } ∧ Acts exact base r k.mm mm g g
    (Eager.write va (fun i => bytes.getD i 0) i (space k.mm g r))) _ 0 bytes.length k k' ⟨k.mm,rfl,Acts.refl good⟩ ?_ run
  · simpa [Eager.writeList] using final
  · rintro i k1 k2 _ below ⟨mm,rfl,acts⟩ round
    obtain ⟨mm2,rfl,acts2⟩ := user_store_acts (k := { k with mm := mm }) acts.good home (there i (by omega)) round
    refine ⟨mm2,rfl,?_⟩
    rw [acts.pages] at acts2
    exact acts.trans acts2

/-- The bytes of the console that `sys_read` stores. -/
theorem read_loop_acts (good : Good exact base k.mm g) {r : Nat} (home : root_of k.hart.satp = r) {buf len : Nat}
    (writes : ∀ i, i < len → Writes g r (pageOf (buf+i)))
    (run : (forM (List.range' 0 len) fun i => do
      let c ← read_char
      user_store (buf+i) c : K Unit).run k = .ok ⟨⟩ k') :
    ∃ mm, k' = { k with mm := mm, input := fun i => k.input (i+len) } ∧
      Acts exact base r k.mm mm g g (Eager.write buf k.input len (space k.mm g r)) := by
  have final := forM_range'_ok (fun n k' => ∃ mm, k' = { k with mm := mm, input := fun i => k.input (i+n) } ∧
    Acts exact base r k.mm mm g g (Eager.write buf k.input n (space k.mm g r))) _ 0 len k k' ⟨k.mm,rfl,Acts.refl good⟩ ?_ run
  · simpa using final
  · rintro n k1 k2 _ below ⟨mm,rfl,acts⟩ round
    have byte : read_char.run { k with mm := mm, input := fun i => k.input (i+n) } =
        .ok (k.input (0+n)) { k with mm := mm, input := fun i => k.input (i+1+n) } := rfl
    rw [run_seq byte] at round
    obtain ⟨mm2,rfl,acts2⟩ := user_store_acts (k := { k with mm := mm, input := fun i => k.input (i+1+n) }) acts.good home
      (writes n (by omega)).there round
    have shift : (fun i => k.input (i+1+n)) = fun i => k.input (i+(n+1)) := by
      funext i
      congr 1
      omega
    refine ⟨mm2,by rw [shift],?_⟩
    rw [acts.pages,Nat.zero_add] at acts2
    exact acts.trans acts2

/-! ### Checking a buffer -/

/-- `ensure_user_range` for the process that runs, before a write. -/
theorem ensure_range_write (good : Good exact base k.mm g) (running : k.process_list k.current = some me)
    (isRoot : g.own me.page_table.root = .root) {ptr len : Nat} {res : Except Nat Unit}
    (run : (ensure_range ptr len true).run k = .ok res k') :
    ∃ mm g', k' = { k with mm := mm } ∧
      Acts exact base me.page_table.root k.mm mm g g' (space k.mm g me.page_table.root) ∧
      match res with
      | .ok _ => (len = 0 ∨ Writable (space k.mm g me.page_table.root) ptr len) ∧
          ∀ i, i < len → Writes g' me.page_table.root (pageOf (ptr+i))
      | .error _ => ¬ (len = 0 ∨ Writable (space k.mm g me.page_table.root) ptr len) := by
  unfold ensure_range at run
  rw [run_seq (run_current running),run_onMm] at run
  by_cases zero : len = 0
  · have whole : (ensure_user_range me.page_table ptr len true).run k.mm = .ok (.ok ()) k.mm := by
      unfold ensure_user_range
      rw [if_pos zero]
      rfl
    rw [whole] at run
    cases run
    exact ⟨k.mm,g,rfl,Acts.refl good,.inl zero,fun i below => absurd below (by omega)⟩
  · rcases ensure_user_range_write me.page_table good isRoot ptr zero with
      ⟨e,m',failed⟩ | ⟨res',m',g',checked,checks,result⟩
    · rw [failed] at run
      cases run
    · rw [checked] at run
      cases run
      refine ⟨m',g',rfl,checks.acts,?_⟩
      cases res with
      | ok _ => exact ⟨.inr result.1.1,fun i below => result.2 (ptr+i) (by simp only [mask_page]; omega) (by omega)⟩
      | error _ => exact fun either => either.elim zero result

end

/-! ### Reading memory -/

theorem lookup_total (pt : PageTable) (va : Nat) (m : Mm) : ∃ res, (pt.lookup va).run m = .ok res m := by
  unfold PageTable.lookup
  rw [run_seq (run_read _ _)]
  split
  · exact ⟨none,rfl⟩
  rw [run_seq (run_read _ _)]
  split
  · exact ⟨none,rfl⟩
  · exact ⟨_,rfl⟩

theorem ensure_user_page_read (pt : PageTable) (va : Nat) (m : Mm) :
    ∃ res, (ensure_user_page pt va false).run m = .ok res m := by
  obtain ⟨found,run⟩ := lookup_total pt va m
  unfold ensure_user_page
  rw [run_seq run]
  cases found with
  | none => exact ⟨_,rfl⟩
  | some entry =>
    dsimp only
    rw [run_seq (run_read _ _)]
    split
    · exact ⟨_,rfl⟩
    rw [if_neg (by simp),run_seq (run_read _ _)]
    split
    · exact ⟨_,rfl⟩
    · exact ⟨_,rfl⟩

theorem ensure_user_pages_read (pt : PageTable) (last page : Nat) (m : Mm) :
    ∃ res, (ensure_user_pages pt last page false).run m = .ok res m := by
  induction page using Nat.strongRecMeasure (fun page => mask_page last-page) with
  | ind page ih =>
    obtain ⟨res,run⟩ := ensure_user_page_read pt page m
    unfold ensure_user_pages
    rw [run_seq run]
    cases res with
    | error e => exact ⟨_,rfl⟩
    | ok _ =>
      dsimp only
      split
      · exact ⟨_,rfl⟩
      · exact ih (page+4096) (by omega)

/-- A check before a read changes nothing. -/
theorem ensure_user_range_read (pt : PageTable) (ptr len : Nat) (m : Mm) :
    ∃ res, (ensure_user_range pt ptr len false).run m = .ok res m := by
  unfold ensure_user_range
  split
  · exact ⟨_,rfl⟩
  split
  · exact ⟨_,rfl⟩
  cases checked_add ptr (len-1) with
  | none => exact ⟨_,rfl⟩
  | some last => exact ensure_user_pages_read pt last (mask_page ptr) m

/-! ### System calls on buffers -/

section
variable {exact : Bool} {base : Nat} {k k' : Kernel} {g : Ledger} {me : Process} (good : Good exact base k.mm g)
  (running : k.process_list k.current = some me) (isRoot : g.own me.page_table.root = .root)
  (home : root_of k.hart.satp = me.page_table.root)

include good running isRoot home

theorem sys_read_serves {fd buf len r : Nat} (run : (sys_read fd buf len).run k = .ok r k') :
    ∃ g', Serves exact base me k k' g g'
      { imageOf k.mm g me with pages := (Eager.read fd buf len k.input (space k.mm g me.page_table.root)).1 }
      (Eager.read fd buf len k.input (space k.mm g me.page_table.root)).2 := by
  unfold sys_read at run
  split at run
  · rename_i other
    cases run
    refine ⟨g,?_⟩
    rw [Eager.read,if_neg fun both => other both.1]
    exact Serves.refl good running
  rename_i zero
  obtain ⟨res,k1,check,rest⟩ := bind_ok run
  obtain ⟨mm,g1,rfl,acts,result⟩ := ensure_range_write good running isRoot check
  cases res with
  | error e =>
    cases rest
    refine ⟨g1,?_⟩
    rw [Eager.read,if_neg fun both => result both.2]
    exact Serves.of_acts running acts
  | ok _ =>
    dsimp only at rest
    obtain ⟨_,k2,loop,last⟩ := bind_ok rest
    cases last
    obtain ⟨mm2,rfl,acts2⟩ := read_loop_acts (k := { k with mm := mm }) acts.good home result.2 loop
    rw [acts.pages] at acts2
    have fd_zero : fd = 0 := by simpa using zero
    rw [Eager.read,if_pos ⟨fd_zero,result.1⟩]
    have serves := Serves.of_acts running (acts.trans acts2)
    exact ⟨g1,{ serves with kept := kept_of_equal rfl rfl rfl rfl, input := rfl }⟩

theorem sys_getcwd_serves {buf size r : Nat} (run : (sys_getcwd buf size).run k = .ok r k') :
    ∃ g', Serves exact base me k k' g g'
      { imageOf k.mm g me with pages := Eager.getcwd buf size (space k.mm g me.page_table.root) } k.input := by
  unfold sys_getcwd at run
  have two : (ascii "/" ++ [0]).length = 2 := by decide
  dsimp only at run
  rw [two] at run
  split at run
  · rename_i small
    cases run
    refine ⟨g,?_⟩
    rw [Eager.getcwd,if_neg fun both => absurd both.1 (by omega)]
    exact Serves.refl good running
  rename_i enough
  obtain ⟨res,k1,check,rest⟩ := bind_ok run
  obtain ⟨mm,g1,rfl,acts,result⟩ := ensure_range_write good running isRoot check
  cases res with
  | error e =>
    cases rest
    refine ⟨g1,?_⟩
    rw [Eager.getcwd,if_neg fun both => result (.inr both.2)]
    exact Serves.of_acts running acts
  | ok _ =>
    dsimp only at rest
    obtain ⟨_,k2,stored,last⟩ := bind_ok rest
    cases last
    obtain ⟨mm2,rfl,acts2⟩ := user_write_acts (k := { k with mm := mm }) acts.good home
      (fun i below => (result.2 i (by rw [two] at below; exact below)).there) stored
    rw [acts.pages] at acts2
    rw [Eager.getcwd,if_pos ⟨by omega,result.1.resolve_left (by omega)⟩]
    exact ⟨g1,Serves.of_acts running (acts.trans acts2)⟩

omit good running isRoot in
/-- One field of `uname`, inside the range that was checked. -/
theorem write_uts_field_acts {buf : Nat} {mm : Mm} {g1 : Ledger} {s : Pages}
    (acts : Acts exact base me.page_table.root k.mm mm g g1 s)
    (writes : ∀ i, i < UTS_SIZE → Writes g1 me.page_table.root (pageOf (buf+i))) {index : Nat} {value : List (BitVec 8)}
    (inside : index*UTS_FIELD_LEN+value.length ≤ UTS_SIZE) (short : value.length ≤ UTS_FIELD_LEN-1) {k2 : Kernel}
    (run : (write_uts_field buf index value).run { k with mm := mm } = .ok ⟨⟩ k2) :
    ∃ mm2, k2 = { k with mm := mm2 } ∧ Acts exact base me.page_table.root k.mm mm2 g g1
      (Eager.writeList (buf+index*UTS_FIELD_LEN) value s) := by
  unfold write_uts_field at run
  rw [List.take_of_length_le short] at run
  obtain ⟨mm2,rfl,acts2⟩ := user_write_acts (k := { k with mm := mm }) acts.good home (fun i below => by
    rw [Nat.add_assoc]
    exact (writes _ (by omega)).there) run
  rw [acts.pages] at acts2
  exact ⟨mm2,rfl,acts.trans acts2⟩

theorem sys_uname_serves {buf r : Nat} (run : (sys_uname buf).run k = .ok r k') :
    ∃ g', Serves exact base me k k' g g'
      { imageOf k.mm g me with pages := Eager.uname buf (space k.mm g me.page_table.root) } k.input := by
  unfold sys_uname at run
  obtain ⟨res,k1,check,rest⟩ := bind_ok run
  obtain ⟨mm,g1,rfl,acts,result⟩ := ensure_range_write good running isRoot check
  cases res with
  | error e =>
    cases rest
    refine ⟨g1,?_⟩
    rw [Eager.uname,if_neg fun here => result (.inr here)]
    exact Serves.of_acts running acts
  | ok _ =>
    dsimp only at rest
    obtain ⟨_,k2,stored,rest⟩ := bind_ok rest
    obtain ⟨mm0,rfl,acts0⟩ := user_write_acts (k := { k with mm := mm }) acts.good home
      (fun i below => (result.2 i (by rw [List.length_replicate] at below; exact below)).there) stored
    rw [acts.pages] at acts0
    have whole := acts.trans acts0
    obtain ⟨_,_,field,rest⟩ := bind_ok rest
    obtain ⟨mm1,rfl,whole1⟩ := write_uts_field_acts home whole result.2 (by decide) (by decide) field
    obtain ⟨_,_,field,rest⟩ := bind_ok rest
    obtain ⟨mm2,rfl,whole2⟩ := write_uts_field_acts home whole1 result.2 (by decide) (by decide) field
    obtain ⟨_,_,field,rest⟩ := bind_ok rest
    obtain ⟨mm3,rfl,whole3⟩ := write_uts_field_acts home whole2 result.2 (by decide) (by decide) field
    obtain ⟨_,_,field,rest⟩ := bind_ok rest
    obtain ⟨mm4,rfl,whole4⟩ := write_uts_field_acts home whole3 result.2 (by decide) (by decide) field
    obtain ⟨_,_,field,rest⟩ := bind_ok rest
    obtain ⟨mm5,rfl,whole5⟩ := write_uts_field_acts home whole4 result.2 (by decide) (by decide) field
    obtain ⟨_,_,field,rest⟩ := bind_ok rest
    obtain ⟨mm6,rfl,whole6⟩ := write_uts_field_acts home whole5 result.2 (by decide) (by decide) field
    cases rest
    rw [Eager.uname,if_pos (result.1.resolve_left (by decide))]
    exact ⟨g1,Serves.of_acts running whole6⟩

omit isRoot home in
theorem sys_write_serves {fd buf len r : Nat} (run : (sys_write fd buf len).run k = .ok r k') :
    Serves exact base me k k' g g (imageOf k.mm g me) k.input := by
  unfold sys_write at run
  split at run
  · cases run
    exact Serves.refl good running
  obtain ⟨res,k1,check,rest⟩ := bind_ok run
  have same : k1 = k := by
    unfold ensure_range at check
    obtain ⟨found,silent⟩ := ensure_user_range_read me.page_table buf len k.mm
    rw [run_seq (run_current running),run_onMm,silent] at check
    cases check
    rfl
  subst same
  cases res with
  | error e =>
    cases rest
    exact Serves.refl good running
  | ok _ =>
    dsimp only at rest
    obtain ⟨_,k2,loop,last⟩ := bind_ok rest
    cases last
    have quiet := forM_range'_ok (fun _ k2 => ∃ output, k2 = { k1 with output := output }) _ 0 len k1 k' ⟨k1.output,rfl⟩ ?_ loop
    · obtain ⟨output,rfl⟩ := quiet
      exact Serves.idle good running (kept_of_equal rfl rfl rfl rfl) rfl rfl rfl
    · rintro i k2 k3 _ _ ⟨output,rfl⟩ round
      obtain ⟨c,k4,loaded,put⟩ := bind_ok round
      unfold user_load at loaded
      rw [run_seq (show (get : K Kernel).run _ = .ok _ _ from rfl)] at loaded
      split at loaded
      · cases loaded
        cases put
        exact ⟨_,rfl⟩
      · cases loaded

end

/-! ### Heap and mappings -/

theorem run_lift {α : Type} {x : Except Panic α} {a : α} (value : x = .ok a) (k : Kernel) : (lift x).run k = .ok a k := by
  rw [value]
  rfl

theorem lift_ok {α : Type} {x : Except Panic α} {a : α} {k k' : Kernel} (run : (lift x).run k = .ok a k') :
    x = .ok a ∧ k' = k := by
  cases x with
  | ok b =>
    cases run
    exact ⟨rfl,rfl⟩
  | error e => cases run

theorem align_up_eq {addr next : Nat} (run : align_up addr = .ok next) : next = pageUp addr*4096 := by
  unfold align_up at run
  split at run
  · cases run
    rfl
  · cases run

theorem align_up_small {addr : Nat} (small : addr+4096 < 2^64) : align_up addr = .ok (pageUp addr*4096) := by
  unfold align_up
  rw [if_pos (show addr+PAGE_SIZE < 2^64 from small)]
  rfl

theorem pageUp_mono {a b : Nat} (order : a ≤ b) : pageUp a ≤ pageUp b := Nat.div_le_div_right (by omega)

theorem has_bit {value j : Nat} (clear : has value (2^j) = false) : value.testBit j = false := by
  have zero : value &&& 2^j = 0 := by simpa [has] using clear
  have bit := congrArg (Nat.testBit · j) zero
  simpa [Nat.testBit_and,Nat.testBit_two_pow_self] using bit

/-- An accepted protection that is not empty allows reading, writing or executing. -/
theorem prot_access {prot : Nat} (bound : prot < 2^64) (bits : ¬ outside prot (PROT_READ ||| PROT_WRITE ||| PROT_EXEC) = true)
    (nonzero : ¬ prot = 0) : (has prot PROT_READ || has prot PROT_WRITE) = true ∨ has prot PROT_EXEC = true := by
  by_contra none
  rw [not_or,Bool.not_eq_true,Bool.not_eq_true,Bool.or_eq_false_iff] at none
  obtain ⟨⟨r,w⟩,x⟩ := none
  have r := has_bit (j := 0) r
  have w := has_bit (j := 1) w
  have x := has_bit (j := 2) x
  have high : BitVec.ofNat 64 prot &&& ~~~(BitVec.ofNat 64 7) = 0 := by simpa [outside,PROT_READ,PROT_WRITE,PROT_EXEC] using bits
  refine nonzero (Nat.eq_of_testBit_eq fun i => ?_)
  rw [Nat.zero_testBit]
  by_cases inside : i < 64
  · by_cases low : i < 3
    · interval_cases i
      · exact r
      · exact w
      · exact x
    · have bit : (BitVec.ofNat 64 prot &&& ~~~(BitVec.ofNat 64 7)).getLsbD i = false := by
        rw [high]
        exact BitVec.getLsbD_zero
      have seven : (7 : Nat).testBit i = false := Nat.testBit_lt_two_pow (by
        calc 7 < 2^3 := by decide
          _ ≤ 2^i := Nat.pow_le_pow_right (by decide) (by omega))
      rw [BitVec.getLsbD_and,BitVec.getLsbD_not,BitVec.getLsbD_ofNat,BitVec.getLsbD_ofNat,seven] at bit
      simpa [inside] using bit
  · exact Nat.testBit_lt_two_pow (lt_of_lt_of_le bound (Nat.pow_le_pow_right (by decide) (by omega)))

/-- `sys_mmap` refuses its arguments, or goes on with the length rounded up. -/
theorem sys_mmap_cases (addr len prot flags fd offset : Nat) (k : Kernel) :
    (∃ r, (r = linux_error EINVAL ∨ r = linux_error ENOSYS) ∧ (sys_mmap addr len prot flags fd offset).run k = .ok r k ∧
      Eager.mmapLength len prot flags offset = none) ∨
    ∃ whole pte_flags, Eager.mmapLength len prot flags offset = some whole ∧ whole%4096 = 0 ∧ 0 < whole ∧
      pte_flags_from_prot prot = some pte_flags ∧
      (sys_mmap addr len prot flags fd offset).run k = (mmap_anonymous addr whole prot flags pte_flags).run k := by
  unfold sys_mmap
  unfold Eager.mmapLength
  cases rounded : checked_align_up len with
  | none => exact .inl ⟨_,.inl rfl,rfl,rfl⟩
  | some whole =>
    dsimp only
    rw [Option.filter_some]
    by_cases empty : whole = 0
    · rw [if_pos empty]
      exact .inl ⟨_,.inl rfl,rfl,by simp [empty]⟩
    rw [if_neg empty]
    by_cases unaligned : offset &&& (PAGE_SIZE-1) ≠ 0
    · rw [if_pos unaligned]
      exact .inl ⟨_,.inl rfl,rfl,by simp [unaligned]⟩
    rw [if_neg unaligned]
    rw [not_not] at unaligned
    cases fixed : has flags MAP_FIXED with
    | true =>
      rw [if_pos rfl]
      exact .inl ⟨_,.inr rfl,rfl,by simp⟩
    | false =>
      rw [if_neg (by simp)]
      cases kind : (!has flags MAP_ANONYMOUS || !has flags MAP_PRIVATE) with
      | true =>
        have refused : ¬ (has flags MAP_ANONYMOUS = true ∧ has flags MAP_PRIVATE = true) := by
          rintro ⟨first,second⟩
          simp [first,second] at kind
        rw [if_pos rfl]
        refine .inl ⟨_,.inr rfl,rfl,?_⟩
        rw [if_neg]
        simp only [decide_eq_true_eq]
        exact fun all => refused ⟨all.2.2.2.1,all.2.2.2.2.1⟩
      | false =>
        obtain ⟨anonymous,own⟩ : has flags MAP_ANONYMOUS = true ∧ has flags MAP_PRIVATE = true := by simpa using kind
        rw [if_neg (by simp)]
        cases extra : outside flags (MAP_PRIVATE ||| MAP_FIXED ||| MAP_ANONYMOUS) with
        | true =>
          rw [if_pos rfl]
          exact .inl ⟨_,.inr rfl,rfl,by simp⟩
        | false =>
          rw [if_neg (by simp)]
          cases accepted : pte_flags_from_prot prot with
          | none => exact .inl ⟨_,.inl rfl,rfl,by simp⟩
          | some pte_flags =>
            have aligned : whole%4096 = 0 := by
              unfold checked_align_up at rounded
              obtain ⟨sum,_,rfl⟩ := Option.map_eq_some_iff.mp rounded
              exact Nat.mul_mod_left _ _
            refine .inr ⟨whole,pte_flags,?_,aligned,by omega,rfl,rfl⟩
            simp only [empty,unaligned,anonymous,own,not_false_eq_true,Bool.false_eq_true,ne_eq,
              Option.isSome_some,and_self,decide_true,if_true]

section
variable {exact : Bool} {base : Nat} {k k' : Kernel} {g : Ledger} {me : Process} (good : Good exact base k.mm g)
  (running : k.process_list k.current = some me) (isRoot : g.own me.page_table.root = .root)

include good running isRoot

/-- Growing the heap into pages that are not there yet. -/
theorem grow_heap_spec (pool : me.page_table.frame_alloc = alloc_frame) {old_break new_break : Nat}
    (bound : new_break ≤ USER_HEAP_LIMIT) (larger : old_break ≤ new_break) :
    ∃ res mm g', (grow_heap old_break new_break).run k = .ok res { k with mm := mm } ∧
      Acts exact base me.page_table.root k.mm mm g g'
        (if res then Eager.fillPages (pageUp old_break) (pageUp new_break) (Page.zero true true false)
          (space k.mm g me.page_table.root) else space k.mm g me.page_table.root) ∧
      (res = true → ∀ n, pageUp old_break ≤ n → n < pageUp new_break → space k.mm g me.page_table.root n = none) ∧
      Grown me.page_table.root (pageUp old_break) (if res then pageUp new_break else pageUp old_break)
        (PTEFlags.new true true false true) g g' ∧ Charged me.page_table.root (pageUp old_break) (pageUp new_break) g g' res := by
  have limit : USER_HEAP_LIMIT = 0x3e000000 := rfl
  have order := pageUp_mono larger
  have low : pageUp new_break*4096 ≤ 2^31 := by
    unfold pageUp
    omega
  obtain ⟨res,m',g',mapped,acts,absent,grown,charged⟩ := map_zeroed_user_pages_spec me.page_table true true false good pool isRoot
    (.inl rfl) (fun _ => rfl) (pageUp old_break*4096) (pageUp new_break*4096) (Nat.mul_mod_left _ _) (Nat.mul_mod_left _ _)
    (Nat.mul_le_mul_right _ order) low
  rw [Nat.mul_div_cancel _ (by decide),Nat.mul_div_cancel _ (by decide)] at acts absent grown charged
  refine ⟨res,m',g',?_,acts,absent,grown,charged⟩
  unfold grow_heap
  rw [run_seq (run_lift (align_up_small (by omega)) k),run_seq (run_lift (align_up_small (by omega)) k),
    run_seq (run_current running)]
  exact onMm_ok mapped

theorem shrink_heap_spec {new_break old_break : Nat} (bound : old_break ≤ USER_HEAP_LIMIT) (smaller : new_break < old_break) :
    ∃ mm g', (shrink_heap new_break old_break).run k = .ok ⟨⟩ { k with mm := mm } ∧
      Acts exact base me.page_table.root k.mm mm g g'
        (Eager.unmap (pageUp new_break) (pageUp old_break) (space k.mm g me.page_table.root)) := by
  have limit : USER_HEAP_LIMIT = 0x3e000000 := rfl
  have low : pageUp old_break*4096 ≤ 2^39 := by
    unfold pageUp
    omega
  obtain ⟨m',g',cleared,acts,_⟩ := unmap_user_pages_spec me.page_table good isRoot (pageUp new_break*4096)
    (pageUp old_break*4096) (Nat.mul_mod_left _ _) (Nat.mul_mod_left _ _) low
  rw [Nat.mul_div_cancel _ (by decide),Nat.mul_div_cancel _ (by decide)] at acts
  refine ⟨m',g',?_,acts⟩
  unfold shrink_heap
  rw [run_seq (run_lift (align_up_small (by omega)) k),run_seq (run_lift (align_up_small (by omega)) k),
    run_seq (run_current running)]
  exact onMm_ok cleared

/-- A break that is asked to grow: it is refused, or the pages up to it are mapped and
    it moves, or they are not and it stays. -/
theorem sys_brk_grow (pool : me.page_table.frame_alloc = alloc_frame) {new_break : Nat} (larger : me.heap_end < new_break) :
    ((sys_brk new_break).run k = .ok me.heap_end k ∧ (new_break < me.heap_start ∨ new_break > USER_HEAP_LIMIT)) ∨
    (¬ (new_break < me.heap_start ∨ new_break > USER_HEAP_LIMIT) ∧ ∃ res mm g',
      Acts exact base me.page_table.root k.mm mm g g'
        (if res then Eager.fillPages (pageUp me.heap_end) (pageUp new_break) (Page.zero true true false)
          (space k.mm g me.page_table.root) else space k.mm g me.page_table.root) ∧
      (res = true → ∀ n, pageUp me.heap_end ≤ n → n < pageUp new_break → space k.mm g me.page_table.root n = none) ∧
      Grown me.page_table.root (pageUp me.heap_end) (if res then pageUp new_break else pageUp me.heap_end)
        (PTEFlags.new true true false true) g g' ∧
      Charged me.page_table.root (pageUp me.heap_end) (pageUp new_break) g g' res ∧
      match res with
      | true => (sys_brk new_break).run k = .ok new_break { k with
          mm := mm
          process_list := Function.update k.process_list k.current (some { me with heap_end := new_break }) }
      | false => (sys_brk new_break).run k = .ok me.heap_end { k with mm := mm }) := by
  unfold sys_brk
  rw [run_seq (run_current running)]
  rw [run_seq (run_current running)]
  dsimp only
  rw [if_neg (by omega)]
  by_cases refused : new_break < me.heap_start ∨ new_break > USER_HEAP_LIMIT
  · rw [if_pos refused]
    exact .inl ⟨rfl,refused⟩
  rw [if_neg refused,if_pos larger]
  obtain ⟨res,mm,g1,done,acts,absent,grown,charged⟩ := grow_heap_spec good running isRoot pool (by omega) (Nat.le_of_lt larger)
  refine .inr ⟨refused,res,mm,g1,acts,absent,grown,charged,?_⟩
  cases res with
  | true =>
    dsimp only
    rw [run_seq done,if_pos rfl,run_seq (run_update_current (by exact running) _)]
    rfl
  | false =>
    dsimp only
    rw [run_seq done]
    rfl

/-- A break that is asked to shrink or to stay. -/
theorem sys_brk_shrink (bound : me.heap_end ≤ USER_HEAP_LIMIT) {new_break : Nat} (smaller : new_break ≤ me.heap_end) :
    ((sys_brk new_break).run k = .ok me.heap_end k ∧ (new_break < me.heap_start ∨ new_break > USER_HEAP_LIMIT ∨ new_break = 0)) ∨
    (¬ (new_break < me.heap_start ∨ new_break > USER_HEAP_LIMIT ∨ new_break = 0) ∧ ∃ mm g',
      Acts exact base me.page_table.root k.mm mm g g'
        (Eager.unmap (pageUp new_break) (pageUp me.heap_end) (space k.mm g me.page_table.root)) ∧
      (sys_brk new_break).run k = .ok new_break { k with
        mm := mm
        process_list := Function.update k.process_list k.current (some { me with heap_end := new_break }) }) := by
  unfold sys_brk
  rw [run_seq (run_current running)]
  rw [run_seq (run_current running)]
  dsimp only
  by_cases zero : new_break = 0
  · rw [if_pos zero]
    exact .inl ⟨rfl,.inr (.inr zero)⟩
  rw [if_neg zero]
  by_cases refused : new_break < me.heap_start ∨ new_break > USER_HEAP_LIMIT
  · rw [if_pos refused]
    exact .inl ⟨rfl,refused.imp_right .inl⟩
  rw [if_neg refused,if_neg (by omega)]
  have open_gate : ¬ (new_break < me.heap_start ∨ new_break > USER_HEAP_LIMIT ∨ new_break = 0) := by
    rintro (h | h | h)
    · exact refused (.inl h)
    · exact refused (.inr h)
    · exact zero h
  refine .inr ⟨open_gate,?_⟩
  by_cases less : new_break < me.heap_end
  · obtain ⟨mm,g1,shrunk,acts⟩ := shrink_heap_spec good running isRoot bound less
    refine ⟨mm,g1,acts,?_⟩
    rw [if_pos less,run_seq shrunk,run_seq (run_update_current (by exact running) _)]
    rfl
  · have same : me.heap_end = new_break := by omega
    have nothing : Eager.unmap (pageUp new_break) (pageUp me.heap_end) (space k.mm g me.page_table.root) =
        space k.mm g me.page_table.root := unmap_absent fun n low high => by rw [same] at high; omega
    have acts := Acts.refl (r := me.page_table.root) good
    rw [← nothing] at acts
    refine ⟨k.mm,g,acts,?_⟩
    rw [if_neg less,run_seq (run_update_current running _)]
    rfl

omit good running isRoot in
/-- A break that may not grow stays. -/
theorem brk_denied {new_break : Nat} {a : Image} (grows : new_break > a.heap_end) : Eager.brk false new_break a = a := by
  unfold Eager.brk
  split
  · rfl
  · rw [if_neg (by simp)]

theorem sys_brk_serves (pool : me.page_table.frame_alloc = alloc_frame) (bound : me.heap_end ≤ USER_HEAP_LIMIT)
    {new_break r : Nat} (run : (sys_brk new_break).run k = .ok r k') :
    ∃ granted g', Serves exact base me k k' g g' (Eager.brk granted new_break (imageOf k.mm g me)) k.input ∧
      (granted = false → Eager.brk false new_break (imageOf k.mm g me) = imageOf k.mm g me ∧ r = me.heap_end) := by
  by_cases larger : new_break > me.heap_end
  · have grows : new_break > (imageOf k.mm g me).heap_end := larger
    have denied := brk_denied grows
    rcases sys_brk_grow good running isRoot pool larger with ⟨ran,_⟩ | ⟨inside,res,mm,g1,acts,absent,_,_,ran⟩
    · rw [ran] at run
      cases run
      refine ⟨false,g,?_,fun _ => ⟨denied,rfl⟩⟩
      rw [denied]
      exact Serves.refl good running
    have open_gate : ¬ (new_break < (imageOf k.mm g me).heap_start ∨ new_break > USER_HEAP_LIMIT ∨ new_break = 0) := by
      rintro (h | h | h)
      · exact inside (.inl h)
      · exact inside (.inr h)
      · omega
    cases res with
    | true =>
      dsimp only at ran
      rw [ran] at run
      cases run
      refine ⟨true,g1,?_,by simp⟩
      unfold Eager.brk
      rw [if_neg open_gate,if_pos grows,if_pos ⟨rfl,absent rfl⟩]
      exact Serves.of_update _ running acts ⟨rfl,rfl,rfl,rfl,rfl,rfl,rfl⟩
    | false =>
      dsimp only at ran
      rw [ran] at run
      cases run
      refine ⟨false,g1,?_,fun _ => ⟨denied,rfl⟩⟩
      rw [denied]
      exact Serves.of_acts running acts
  · have shrinks : ¬ new_break > (imageOf k.mm g me).heap_end := larger
    refine ⟨true,?_⟩
    unfold Eager.brk
    rcases sys_brk_shrink good running isRoot bound (Nat.le_of_not_lt larger) with ⟨ran,refused⟩ | ⟨inside,mm,g1,acts,ran⟩
    · rw [ran] at run
      cases run
      refine ⟨g,?_,by simp⟩
      rw [if_pos (show new_break < (imageOf k.mm g me).heap_start ∨ _ from refused)]
      exact Serves.refl good running
    · rw [ran] at run
      cases run
      refine ⟨g1,?_,by simp⟩
      rw [if_neg (show ¬ (new_break < (imageOf k.mm g me).heap_start ∨ _) from inside),if_neg shrinks]
      exact Serves.of_update _ running acts ⟨rfl,rfl,rfl,rfl,rfl,rfl,rfl⟩

/-- An anonymous mapping with a place chosen: there is none or no slot for it, or its pages are mapped and recorded, or
    they are not. -/
theorem mmap_anonymous_cases (pool : me.page_table.frame_alloc = alloc_frame) {addr len prot flags : Nat} {pte_flags : PTEFlags}
    (bound : prot < 2^64) (whole : len%4096 = 0) (accepted : pte_flags_from_prot prot = some pte_flags) {choice : Option Nat}
    (chosen : choose_mmap_addr me.mmap_areas addr len = .ok choice) :
    ((mmap_anonymous addr len prot flags pte_flags).run k = .ok (linux_error ENOMEM) k ∧
      ¬ ∃ start slot, choice = some start ∧ find_free_mmap_slot me.mmap_areas = some slot) ∨
    ∃ start slot res mm g', choice = some start ∧ find_free_mmap_slot me.mmap_areas = some slot ∧
      Acts exact base me.page_table.root k.mm mm g g'
        (if res then Eager.fillPages (start/4096) ((start+len)/4096) (Eager.protPage prot) (space k.mm g me.page_table.root)
          else space k.mm g me.page_table.root) ∧
      (res = true → ∀ n, start/4096 ≤ n → n < (start+len)/4096 → space k.mm g me.page_table.root n = none) ∧
      Grown me.page_table.root (start/4096) (if res then (start+len)/4096 else start/4096) pte_flags g g' ∧
      Charged me.page_table.root (start/4096) ((start+len)/4096) g g' res ∧
      match res with
      | true => (mmap_anonymous addr len prot flags pte_flags).run k = .ok start { k with
          mm := mm
          process_list := Function.update k.process_list k.current (some { me with
            mmap_areas := Function.update me.mmap_areas slot { start, len, prot, flags, used := true } }) }
      | false => (mmap_anonymous addr len prot flags pte_flags).run k = .ok (linux_error ENOMEM) { k with mm := mm } := by
  unfold mmap_anonymous
  rw [run_seq (run_current running),run_seq (run_lift chosen k)]
  cases choice with
  | none =>
    refine .inl ⟨rfl,?_⟩
    rintro ⟨start,slot,there,_⟩
    cases there
  | some start =>
    dsimp only
    cases found : find_free_mmap_slot me.mmap_areas with
    | none =>
      refine .inl ⟨rfl,?_⟩
      rintro ⟨_,_,_,there⟩
      cases there
    | some slot =>
      dsimp only
      have gap := choose_mmap_addr_gap chosen
      unfold pte_flags_from_prot at accepted
      split at accepted
      · cases accepted
      rename_i bits
      split at accepted
      · cases accepted
      rename_i nonzero
      rw [Option.some.injEq] at accepted
      have access := prot_access bound bits nonzero
      have limit : USER_MMAP_LIMIT = 0x3f000000 := rfl
      have aligned := gap.aligned
      have high := gap.high
      obtain ⟨res,m',g',done,acts,absent,grown,charged⟩ := map_zeroed_user_pages_spec me.page_table
        (has prot PROT_READ || has prot PROT_WRITE) (has prot PROT_WRITE) (has prot PROT_EXEC) good pool isRoot access
        (fun w => by rw [w,Bool.or_true]) start (start+len) gap.aligned (by omega) (by omega) (by omega)
      rw [← accepted]
      refine .inr ⟨start,slot,res,m',g',rfl,rfl,acts,absent,grown,charged,?_⟩
      cases res with
      | true =>
        dsimp only
        rw [run_seq (onMm_ok done),if_pos rfl,run_seq (run_update_current (by exact running) _)]
        rfl
      | false =>
        dsimp only
        rw [run_seq (onMm_ok done)]
        rfl

omit good isRoot in
/-- A mapping whose choice of a place panics. -/
theorem mmap_anonymous_panics {addr len prot flags : Nat} {pte_flags : PTEFlags} {p : Panic}
    (chosen : choose_mmap_addr me.mmap_areas addr len = .error p) :
    (mmap_anonymous addr len prot flags pte_flags).run k = .error (.panicked p) k := by
  unfold mmap_anonymous
  rw [run_seq (run_current running),chosen]
  rfl

omit good running isRoot in
/-- A mapping that is not granted changes nothing. -/
theorem mmap_denied (addr len prot flags offset : Nat) (a : Image) : Eager.mmap false addr len prot flags offset a = a := by
  unfold Eager.mmap
  split
  · rfl
  split
  · rw [if_neg (by simp)]
  · rfl

theorem sys_mmap_serves (pool : me.page_table.frame_alloc = alloc_frame) {addr len prot flags fd offset r : Nat}
    (bound : prot < 2^64) (run : (sys_mmap addr len prot flags fd offset).run k = .ok r k') :
    ∃ granted g', Serves exact base me k k' g g' (Eager.mmap granted addr len prot flags offset (imageOf k.mm g me)) k.input ∧
      (granted = false → r = linux_error ENOMEM) := by
  rcases sys_mmap_cases addr len prot flags fd offset k with
    ⟨_,_,ran,refused⟩ | ⟨whole,pte_flags,length,aligned,_,accepted,goes⟩
  · rw [ran] at run
    cases run
    refine ⟨true,g,?_,by simp⟩
    unfold Eager.mmap
    rw [refused]
    exact Serves.refl good running
  rw [goes] at run
  cases chosen : choose_mmap_addr me.mmap_areas addr whole with
  | error p =>
    rw [mmap_anonymous_panics running chosen] at run
    cases run
  | ok choice =>
    have chosen' : choose_mmap_addr (imageOf k.mm g me).mmap_areas addr whole = .ok choice := chosen
    rcases mmap_anonymous_cases good running isRoot pool bound aligned accepted chosen with
      ⟨ran,_⟩ | ⟨start,slot,res,mm,g',rfl,found,acts,absent,_,_,ran⟩
    · rw [ran] at run
      cases run
      refine ⟨false,g,?_,fun _ => rfl⟩
      rw [mmap_denied]
      exact Serves.refl good running
    · have found' : find_free_mmap_slot (imageOf k.mm g me).mmap_areas = some slot := found
      cases res with
      | true =>
        dsimp only at ran
        rw [ran] at run
        cases run
        refine ⟨true,g',?_,by simp⟩
        unfold Eager.mmap
        rw [length]
        dsimp only
        rw [chosen',found']
        dsimp only
        rw [if_pos ⟨rfl,absent rfl⟩]
        exact Serves.of_update _ running acts ⟨rfl,rfl,rfl,rfl,rfl,rfl,rfl⟩
      | false =>
        dsimp only at ran
        rw [ran] at run
        cases run
        refine ⟨false,g',?_,fun _ => rfl⟩
        rw [mmap_denied]
        exact Serves.of_acts running acts

theorem sys_munmap_serves {addr len r : Nat} (run : (sys_munmap addr len).run k = .ok r k') :
    ∃ g', Serves exact base me k k' g g' (Eager.munmap addr len (imageOf k.mm g me)) k.input := by
  unfold sys_munmap at run
  unfold Eager.munmap Eager.munmapEnd
  have same := Serves.refl good running
  by_cases unaligned : addr &&& (PAGE_SIZE-1) ≠ 0
  · rw [if_pos unaligned] at run
    cases run
    rw [if_pos unaligned]
    exact ⟨g,same⟩
  rw [if_neg unaligned] at run ⊢
  have aligned : addr%4096 = 0 := by
    rw [not_not] at unaligned
    rw [← unaligned]
    exact (Nat.and_two_pow_sub_one_eq_mod addr 12).symm
  cases rounded : checked_align_up len with
  | none =>
    rw [rounded] at run
    cases run
    exact ⟨g,same⟩
  | some whole =>
    rw [rounded] at run
    dsimp only at run
    rw [Option.bind_some]
    by_cases empty : whole = 0
    · rw [if_pos empty] at run
      cases run
      rw [if_pos empty]
      exact ⟨g,same⟩
    rw [if_neg empty] at run ⊢
    cases added : checked_add addr whole with
    | none =>
      rw [added] at run
      cases run
      exact ⟨g,same⟩
    | some stop =>
      rw [added] at run
      dsimp only at run
      rw [Option.filter_some]
      by_cases outside : addr < USER_MMAP_START ∨ stop > USER_MMAP_LIMIT
      · rw [if_pos outside] at run
        cases run
        rw [if_neg (by simp only [decide_eq_true_eq]; omega)]
        exact ⟨g,same⟩
      rw [if_neg outside] at run
      rw [if_pos (by simp only [decide_eq_true_eq]; omega)]
      have wholeAligned : whole%4096 = 0 := by
        unfold checked_align_up at rounded
        obtain ⟨sum,_,rfl⟩ := Option.map_eq_some_iff.mp rounded
        exact Nat.mul_mod_left _ _
      have sum := (checked_add_some added).1
      have limit : USER_MMAP_LIMIT = 0x3f000000 := rfl
      unfold munmap_range at run
      rw [run_seq (run_current running)] at run
      dsimp only
      cases split : can_split_mmap_range me.mmap_areas addr stop with
      | false =>
        rw [split] at run
        cases run
        rw [if_neg (show ¬ can_split_mmap_range (imageOf k.mm g me).mmap_areas addr stop = true by
          rw [show (imageOf k.mm g me).mmap_areas = me.mmap_areas from rfl,split]; simp)]
        exact ⟨g,same⟩
      | true =>
        rw [split] at run
        rw [if_pos (show can_split_mmap_range (imageOf k.mm g me).mmap_areas addr stop = true from split)]
        obtain ⟨m',g',cleared,acts,_⟩ := unmap_user_pages_spec me.page_table good isRoot addr stop aligned
          (by omega) (by omega)
        rw [if_neg (by simp),run_seq (onMm_ok cleared)] at run
        obtain ⟨areas,k1,first,last⟩ := bind_ok run
        obtain ⟨removed,rfl⟩ := lift_ok first
        rw [run_seq (run_update_current (by exact running) _)] at last
        cases last
        rw [show remove_mmap_range (imageOf k.mm g me).mmap_areas addr stop = .ok areas from removed]
        exact ⟨g',Serves.of_update _ running acts ⟨rfl,rfl,rfl,rfl,rfl,rfl,rfl⟩⟩

omit isRoot in
theorem sys_exec_serves {r : Nat} (run : sys_exec.run k = .ok r k') :
    Serves exact base me k k' g g (Eager.exec (imageOf k.mm g me)) k.input := by
  unfold sys_exec at run
  rw [run_seq (run_update_current running _)] at run
  cases run
  exact Serves.of_update k.mm running (Acts.refl good) ⟨rfl,rfl,rfl,rfl,rfl,rfl,rfl⟩

end

/-! ### Copy on write for the caller -/

/-- A pointer that an exit code may be stored through: null, or eight bytes in pages
    that the process may write. -/
def StatusPage (g : Ledger) (r ptr : Nat) : Prop :=
  ptr = 0 ∨ ∀ i, i < 8 → ∃ e, UserLeaf g r (pageOf (ptr+i)) e ∧ (is_w e || is_cow e) = true

/-- A user page that a store copies first. -/
def CowPage (g : Ledger) (r n : Nat) : Prop := ∃ e, UserLeaf g r n e ∧ is_cow e = true

theorem cow_pending_user {e : PTEntry} (shape : Shape e) : cow_pending e = is_cow e := by
  unfold cow_pending
  cases cow : is_cow e with
  | false => rfl
  | true =>
    obtain ⟨r,w⟩ := shape.cow cow
    simp [r,w]

/-- The page fault handler finds the copy-on-write pages. -/
theorem cow_entry_spec {exact : Bool} {base : Nat} {m : Mm} {g : Ledger} (good : Good exact base m g) (pt : PageTable)
    (isRoot : g.own pt.root = .root) (va : Nat) :
    (∃ e entry, UserLeaf g pt.root (pageOf va) e ∧ is_cow e = true ∧ leafSlot (g.tree pt.root) (pageOf va) = some entry ∧
      (cow_entry pt va).run m = .ok (some entry) m) ∨
    (¬ CowPage g pt.root (pageOf va) ∧ (cow_entry pt va).run m = .ok none m) := by
  have inside := pageOf_lt va
  unfold cow_entry
  rw [run_seq (good.lookup pt isRoot va)]
  cases slot : leafSlot (g.tree pt.root) (pageOf va) with
  | none =>
    refine .inr ⟨?_,rfl⟩
    rintro ⟨e,leaf,_⟩
    obtain ⟨entry,found⟩ := UserLeaf.slot good.mirrors leaf
    rw [slot] at found
    cases found
  | some entry =>
    have word := load_slot good.mirrors isRoot inside slot
    dsimp only
    rw [run_seq (run_read _ _),word]
    by_cases pending : (cow_pending ((g.tree pt.root).leaf (pageOf va)) && is_u ((g.tree pt.root).leaf (pageOf va))) = true
    · rw [if_pos pending]
      simp only [Bool.and_eq_true] at pending
      obtain ⟨_,leaf⟩ := user_leaf_of good isRoot inside pending.2
      rw [cow_pending_user (good.sound.shape leaf)] at pending
      exact .inl ⟨_,entry,leaf,pending.1,rfl,rfl⟩
    · rw [if_neg pending]
      refine .inr ⟨?_,rfl⟩
      rintro ⟨e,leaf,cow⟩
      rw [leaf.entry] at pending
      rw [cow_pending_user (good.sound.shape leaf),cow,leaf.user] at pending
      exact pending rfl

section
variable {exact : Bool} {base : Nat} {k k' : Kernel} {g : Ledger} {me : Process} (good : Good exact base k.mm g)
  (running : k.process_list k.current = some me) (isRoot : g.own me.page_table.root = .root)

include good running

/-- A store fault that the kernel resolves changes no page. -/
theorem cow_fault_serves {va entry : Nat} {e : PTEntry} (leaf : UserLeaf g me.page_table.root (pageOf va) e)
    (cow : is_cow e = true) (slot : leafSlot (g.tree me.page_table.root) (pageOf va) = some entry)
    (run : (onMm (handle_cow_fault entry)).run k = .ok ⟨⟩ k') :
    ∃ g', Serves exact base me k k' g g' (imageOf k.mm g me) k.input := by
  rw [run_onMm] at run
  rcases handle_cow_fault_spec good leaf cow slot with ⟨_,failed⟩ | ⟨m',g',done,resolves⟩
  · rw [failed] at run
    cases run
  · rw [done] at run
    cases run
    exact ⟨g',Serves.of_acts running ⟨resolves.good,resolves.aside,resolves.same⟩⟩

include isRoot

theorem wait_status_serves (home : root_of k.hart.satp = me.page_table.root) {ptr code : Nat}
    (status : StatusPage g me.page_table.root ptr) (run : (wait_status ptr code).run k = .ok ⟨⟩ k') :
    ∃ g', Serves exact base me k k' g g'
      { imageOf k.mm g me with pages := Eager.deliver ptr code (space k.mm g me.page_table.root) } k.input := by
  unfold wait_status at run
  by_cases null : ptr = 0
  · rw [if_neg (by simpa using null)] at run
    cases run
    refine ⟨g,?_⟩
    rw [Eager.deliver,if_pos null]
    exact Serves.refl good running
  rw [if_pos null,run_seq (run_current running)] at run
  have bytes := status.resolve_left null
  obtain ⟨e,leaf,_⟩ := bytes 0 (by omega)
  rw [Nat.add_zero] at leaf
  obtain ⟨entry,slot⟩ := UserLeaf.slot good.mirrors leaf
  have word := load_slot good.mirrors isRoot leaf.inside slot
  rw [leaf.entry] at word
  rw [run_seq (onMm_ok (good.lookup me.page_table isRoot ptr)),slot] at run
  dsimp only at run
  rw [run_seq (onMm_ok (run_read _ _)),word,cow_pending_user (good.sound.shape leaf),leaf.user,Bool.and_true] at run
  rw [Eager.deliver,if_neg null]
  have eight : (word_bytes (BitVec.ofNat 64 code)).length = 8 := by simp [word_bytes]
  cases cow : is_cow e with
  | true =>
    rw [cow,if_pos rfl] at run
    obtain ⟨_,k1,resolved,stored⟩ := bind_ok run
    rw [run_onMm] at resolved
    rcases handle_cow_fault_spec good leaf cow slot with ⟨_,failed⟩ | ⟨m',g',done,resolves⟩
    · rw [failed] at resolved
      cases resolved
    · rw [done] at resolved
      cases resolved
      -- Only the page of the pointer is resolved; the hart itself refuses a second page that is still shared.
      have there : ∀ i, i < (word_bytes (BitVec.ofNat 64 code)).length → UserPage g' me.page_table.root (pageOf (ptr+i)) := by
        intro i below
        by_cases first : pageOf (ptr+i) = pageOf ptr
        · rw [first]
          exact Writes.there resolves.writable
        · obtain ⟨d,other,_⟩ := bytes i (by omega)
          exact ⟨d,resolves.writable.choose_spec.1.root,other.inside,by rw [resolves.rest _ first]; exact other.entry,other.valid,other.user⟩
      obtain ⟨mm,rfl,acts⟩ := user_write_acts (k := { k with mm := m' }) resolves.good home there stored
      rw [resolves.same] at acts
      exact ⟨g',Serves.of_acts running ⟨acts.good,resolves.aside.trans acts.aside,acts.pages⟩⟩
  | false =>
    rw [cow,if_neg (by simp)] at run
    have there : ∀ i, i < (word_bytes (BitVec.ofNat 64 code)).length → UserPage g me.page_table.root (pageOf (ptr+i)) := by
      intro i below
      obtain ⟨d,other,_⟩ := bytes i (by omega)
      exact ⟨d,other⟩
    obtain ⟨mm,rfl,acts⟩ := user_write_acts good home there run
    exact ⟨g,Serves.of_acts running acts⟩

end

/-! ### All of them -/

/-- A system call that no page sees. -/
theorem call_idle {number : Nat} (args : Fin 6 → Nat) (a : Image) (input : Nat → BitVec 8) (granted : Bool)
    (getcwd : number ≠ SYS_GETCWD) (read : number ≠ SYS_READ) (uname : number ≠ SYS_UNAME) (munmap : number ≠ SYS_MUNMAP)
    (brk : number ≠ SYS_BRK) (exec : number ≠ SYS_EXEC) (mmap : number ≠ SYS_MMAP) :
    Eager.call granted number args a input = (a,input) := by
  rw [Eager.call,if_neg getcwd,if_neg read,if_neg uname,if_neg munmap,if_neg brk,if_neg exec,if_neg mmap]

/-- A call that is not granted memory changes nothing, and its result tells so: `ENOMEM`, or the break as it was. -/
def Denied (number : Nat) (args : Fin 6 → Nat) (a : Image) (input : Nat → BitVec 8) (r : Nat) : Prop :=
  (Eager.call false number args a input).1 = a ∧ (r = linux_error ENOMEM ∨ number = SYS_BRK ∧ r = a.heap_end)

/-- Every system call other than fork, wait and exit does to the pages of its caller
    what the reference system does. -/
theorem call_serves {exact : Bool} {o : Origin} {k k' : Kernel} {g : Ledger} {me : Process} (inv : Inv exact o k g)
    (home : AtHome k) (running : k.process_list k.current = some me) (awake : me.state = .Running) {number r : Nat}
    {args : Fin 6 → Nat} (bounds : ∀ i, args i < 2^64) (returns : ¬ (number = SYS_EXIT ∨ number = SYS_EXIT_GROUP))
    (not_fork : number ≠ SYS_FORK) (not_wait : number ≠ SYS_WAIT) (run : (dispatch number args).run k = .ok r k') :
    ∃ granted g', Serves exact o.base me k k' g g' (Eager.call granted number args (imageOf k.mm g me) k.input).1
      (Eager.call granted number args (imageOf k.mm g me) k.input).2 ∧
      (granted = false → Denied number args (imageOf k.mm g me) k.input r) := by
  have there : me.state ≠ .Gone := by rw [awake]; simp
  have good := inv.good
  have isRoot := inv.link.root running there
  have pool := inv.link.pool running there
  have at_home := home me running
  by_cases getcwd : number = SYS_GETCWD
  · subst getcwd
    obtain ⟨g',serves⟩ := sys_getcwd_serves good running isRoot at_home run
    exact ⟨true,g',serves,by simp⟩
  by_cases read : number = SYS_READ
  · subst read
    obtain ⟨g',serves⟩ := sys_read_serves good running isRoot at_home run
    exact ⟨true,g',serves,by simp⟩
  by_cases uname : number = SYS_UNAME
  · subst uname
    obtain ⟨g',serves⟩ := sys_uname_serves good running isRoot at_home run
    exact ⟨true,g',serves,by simp⟩
  by_cases munmap : number = SYS_MUNMAP
  · subst munmap
    unfold dispatch at run
    rw [if_neg getcwd,if_neg read,if_neg (by decide),if_neg returns,if_neg uname,if_pos rfl] at run
    obtain ⟨g',serves⟩ := sys_munmap_serves good running isRoot run
    exact ⟨true,g',serves,by simp⟩
  by_cases brk : number = SYS_BRK
  · subst brk
    obtain ⟨granted,g',serves,denied⟩ := sys_brk_serves good running isRoot pool (inv.heaps _ me running).2 run
    exact ⟨granted,g',serves,fun less => ⟨(denied less).1,.inr ⟨rfl,(denied less).2⟩⟩⟩
  by_cases exec : number = SYS_EXEC
  · subst exec
    exact ⟨true,g,sys_exec_serves good running run,by simp⟩
  by_cases mmap : number = SYS_MMAP
  · subst mmap
    unfold dispatch at run
    rw [if_neg getcwd,if_neg read,if_neg (by decide),if_neg returns,if_neg uname,if_neg munmap,if_neg (by decide),
      if_neg (by decide),if_neg (by decide),if_neg (by decide),if_neg brk,if_neg not_fork,if_neg exec,if_pos rfl] at run
    obtain ⟨granted,g',serves,denied⟩ := sys_mmap_serves good running isRoot pool (bounds 2) run
    have call (granted : Bool) : Eager.call granted SYS_MMAP args (imageOf k.mm g me) k.input =
        (Eager.mmap granted (args 0) (args 1) (args 2) (args 3) (args 5) (imageOf k.mm g me),k.input) := by
      unfold Eager.call
      rw [if_neg getcwd,if_neg read,if_neg uname,if_neg munmap,if_neg brk,if_neg exec,if_pos rfl]
    have same : (Eager.call false SYS_MMAP args (imageOf k.mm g me) k.input).1 = imageOf k.mm g me := by
      rw [call false,mmap_denied]
    refine ⟨granted,g',?_,fun less => ⟨same,.inl (denied less)⟩⟩
    rw [call granted]
    dsimp only
    exact serves
  -- What is left writes to the console or returns a number.
  refine ⟨true,g,?_,by simp⟩
  rw [call_idle args _ _ _ getcwd read uname munmap brk exec mmap]
  unfold dispatch at run
  rw [if_neg getcwd,if_neg read] at run
  by_cases write : number = SYS_WRITE
  · rw [if_pos write] at run
    exact sys_write_serves good running run
  rw [if_neg write,if_neg returns,if_neg uname,if_neg munmap] at run
  have same := Serves.refl good running
  by_cases getpid : number = SYS_GETPID
  · rw [if_pos getpid,run_seq (run_current running)] at run
    cases run
    exact same
  rw [if_neg getpid] at run
  by_cases getppid : number = SYS_GETPPID
  · rw [if_pos getppid,run_seq (run_current running)] at run
    cases run
    exact same
  rw [if_neg getppid] at run
  by_cases ids : number = SYS_GETUID ∨ number = SYS_GETEUID ∨ number = SYS_GETGID ∨ number = SYS_GETEGID
  · rw [if_pos ids] at run
    cases run
    exact same
  rw [if_neg ids] at run
  by_cases gettid : number = SYS_GETTID
  · rw [if_pos gettid,run_seq (run_current running)] at run
    cases run
    exact same
  rw [if_neg gettid,if_neg brk,if_neg not_fork,if_neg exec,if_neg mmap,if_neg not_wait] at run
  cases run
  exact same

/-- A system call leaves the heap below its limit. -/
theorem call_heap {granted : Bool} {number : Nat} {args : Fin 6 → Nat} {a : Image} {input : Nat → BitVec 8}
    (start : a.heap_start = USER_HEAP_START) (bound : a.heap_end ≤ USER_HEAP_LIMIT) :
    (Eager.call granted number args a input).1.heap_end ≤ USER_HEAP_LIMIT := by
  have limit : USER_HEAP_START ≤ USER_HEAP_LIMIT := by decide
  unfold Eager.call
  split_ifs
  · exact bound
  · exact bound
  · exact bound
  · unfold Eager.munmap
    split
    · exact bound
    split
    · split
      · exact bound
      · exact bound
    · exact bound
  · unfold Eager.brk
    split_ifs
    · exact bound
    · dsimp only
      omega
    · exact bound
    · dsimp only
      omega
  · show a.heap_start ≤ USER_HEAP_LIMIT
    rw [start]
    exact limit
  · unfold Eager.mmap
    split
    · exact bound
    split
    · split_ifs
      · exact bound
      · exact bound
    · exact bound
  · exact bound

end Unit00.Services
