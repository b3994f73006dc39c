import Unit00.Areas
import Unit00.Images
import Unit00.Stages

/-!
The records of an address space and its page table say the same. Which pages a
process has is recorded in its heap bounds and its mmap areas, and once more in
its user leaves; every call that changes the one changes the other by the same
pages. The protection that was granted with a page stays with its leaf, through
forks and copies on write.
-/
namespace Unit00.Records
open Unit00.Memory Unit00.Execution Unit00.Frame Unit00.Paging Unit00.Paging.PTEntry Unit00.Trees Unit00.Ownership
open Unit00.Mirror Unit00.Space Unit00.Pages Unit00.Access Unit00.Mmu Unit00.Task Unit00.Scheduler Unit00.Syscall
open Unit00.Machine Unit00.Lifecycle Unit00.Steps Unit00.Invariant Unit00.Services Unit00.Traps Unit00.View Unit00.Boot
open Unit00.Runs Unit00.Progress Unit00.Stages Unit00.Areas Unit00.Images
open Unit00.Eager (Page Pages Image pageUp)

/-! ### Calls keep the areas in order -/

theorem checked_align_up_mod {len rounded : Nat} (up : checked_align_up len = some rounded) : rounded%4096 = 0 := by
  unfold checked_align_up at up
  obtain ⟨sum,_,rfl⟩ := Option.map_eq_some_iff.mp up
  unfold mask_page
  omega

/-- The range that `munmap` accepts. -/
theorem munmapEnd_some {addr len stop : Nat} (accepted : Eager.munmapEnd addr len = some stop) :
    addr%4096 = 0 ∧ stop%4096 = 0 ∧ addr < stop ∧ USER_MMAP_START ≤ addr ∧ stop ≤ USER_MMAP_LIMIT := by
  unfold Eager.munmapEnd at accepted
  by_cases unaligned : addr &&& (PAGE_SIZE-1) ≠ 0
  · rw [if_pos unaligned] at accepted
    cases accepted
  rw [if_neg unaligned] at accepted
  have aligned : addr%4096 = 0 := by
    rw [not_not] at unaligned
    rw [← unaligned]
    exact (Nat.and_two_pow_sub_one_eq_mod addr 12).symm
  obtain ⟨rounded,up,rest⟩ := Option.bind_eq_some_iff.mp accepted
  have pages := checked_align_up_mod up
  by_cases empty : rounded = 0
  · rw [if_pos empty] at rest
    cases rest
  rw [if_neg empty,Option.filter_eq_some_iff] at rest
  obtain ⟨added,inside⟩ := rest
  have sum := (checked_add_some added).1
  simp only [decide_eq_true_eq] at inside
  exact ⟨aligned,by omega,by omega,inside.1,inside.2⟩

theorem mmapLength_some {len prot flags offset whole : Nat} (accepted : Eager.mmapLength len prot flags offset = some whole) :
    whole%4096 = 0 ∧ whole ≠ 0 := by
  unfold Eager.mmapLength at accepted
  rw [Option.filter_eq_some_iff] at accepted
  obtain ⟨up,asked⟩ := accepted
  simp only [decide_eq_true_eq] at asked
  exact ⟨checked_align_up_mod up,asked.1⟩

/-- A new area in a gap. -/
theorem tidy_mapped {areas : Areas} (tidy : Tidy areas) {len start prot flags : Nat} {slot : Fin MAX_MMAP_AREAS}
    (pages : len%4096 = 0) (nonempty : len ≠ 0) (gap : Gap areas len start) :
    Tidy (Function.update areas slot { start, len, prot, flags, used := true }) :=
  tidy.put (fun _ => ⟨gap.aligned,pages,Nat.pos_of_ne_zero nonempty,gap.low,gap.high⟩) fun _ j _ used => gap.apart j used

/-- Every call keeps the areas of its process in order. -/
theorem tidy_closed : Closed (fun _ _ => True) fun a => Tidy a.mmap_areas := by
  refine ⟨fun _ _ tidy _ => tidy,?_⟩
  rintro granted number args a input _ (rfl | rfl | rfl | rfl) tidy
  · show Tidy (Eager.munmap (args 0) (args 1) a).mmap_areas
    unfold Eager.munmap
    cases accepted : Eager.munmapEnd (args 0) (args 1) with
    | none => exact tidy
    | some stop =>
      dsimp only
      split
      · cases removed : remove_mmap_range a.mmap_areas (args 0) stop with
        | error e => exact tidy
        | ok areas =>
          obtain ⟨aligned,pages,order,_⟩ := munmapEnd_some accepted
          exact (remove_mmap_range_covers tidy aligned pages order removed).1
      · exact tidy
  · show Tidy (Eager.brk granted (args 0) a).mmap_areas
    unfold Eager.brk
    split_ifs
    · exact tidy
    · exact tidy
    · exact tidy
    · exact tidy
  · exact tidy_empty
  · show Tidy (Eager.mmap granted (args 0) (args 1) (args 2) (args 3) (args 5) a).mmap_areas
    unfold Eager.mmap
    cases accepted : Eager.mmapLength (args 1) (args 2) (args 3) (args 5) with
    | none => exact tidy
    | some whole =>
      dsimp only
      obtain ⟨pages,nonempty⟩ := mmapLength_some accepted
      split
      · rename_i start slot chosen _
        split
        · exact tidy_mapped tidy pages nonempty (choose_mmap_addr_gap chosen)
        · exact tidy
      · exact tidy

/-- The areas of every living process are in order in every state that is reached. -/
theorem reachable_tidy {cfg : Config} {k : Kernel} (reached : Reachable cfg WaitsWell k) {i : Fin MAX_PROCESSES} {p : Process}
    (slot : k.process_list i = some p) (live : Live (header p)) : Tidy p.mmap_areas := by
  refine reachable_images (P := fun a => Tidy a.mmap_areas) (fun k e waits => ⟨waits,.inr fun a s tidy _ => tidy,fun _ _ => trivial⟩)
    tidy_closed ?_ reached i p slot live
  intro k booted j q slotQ _
  obtain ⟨r,s,m,g,rfl,_⟩ := boot_launch false booted
  obtain ⟨rfl,rfl⟩ := launched_only slotQ
  exact tidy_empty

/-! ### What the records grant -/

/-- The rights that a protection stands for. -/
def protRights (prot : Nat) : Rights := ⟨has prot PROT_READ || has prot PROT_WRITE,has prot PROT_WRITE,has prot PROT_EXEC⟩

/-- The protection with which a page was granted: code is read and executed, stack and heap are read and written,
    and a mapped area has the protection that was asked for. -/
inductive Granted (count : Nat) (a : Image) (n : Nat) : Nat → Prop
  | code (low : USER_CODE_BASE/4096 ≤ n) (high : n < USER_CODE_BASE/4096+count) : Granted count a n (PROT_READ ||| PROT_EXEC)
  | stack (here : n = USER_STACK_PAGE/4096) : Granted count a n (PROT_READ ||| PROT_WRITE)
  | heap (low : a.heap_start/4096 ≤ n) (high : n < pageUp a.heap_end) : Granted count a n (PROT_READ ||| PROT_WRITE)
  | area {prot : Nat} (covers : Covers a.mmap_areas n prot) : Granted count a n prot

/-- The records are in order, and a page is there only as they say. Where every fork found its frames, each page
    that they say is there. -/
structure Recorded (count : Nat) (whole : Prop) (a : Image) : Prop where
  tidy : Tidy a.mmap_areas
  start : a.heap_start = USER_HEAP_START
  low : a.heap_start ≤ a.heap_end
  high : a.heap_end ≤ USER_HEAP_LIMIT
  granted : ∀ n r, rights a.pages n = some r → ∃ prot, Granted count a n prot ∧ r = protRights prot
  complete : whole → ∀ n prot, Granted count a n prot → (rights a.pages n).isSome

theorem covers_region {areas : Areas} (tidy : Tidy areas) {n prot : Nat} (covers : Covers areas n prot) :
    USER_MMAP_START/4096 ≤ n ∧ n < USER_MMAP_LIMIT/4096 := by
  obtain ⟨i,used,low,high,_⟩ := covers
  obtain ⟨_,_,_,above,below⟩ := tidy.placed i used
  have first : USER_MMAP_START = 0x3e000*4096 := rfl
  have last : USER_MMAP_LIMIT = 0x3f000*4096 := rfl
  omega

section
variable {count : Nat} {whole : Prop} {a : Image}

theorem granted_iff {n prot : Nat} : Granted count a n prot ↔
    (prot = (PROT_READ ||| PROT_EXEC) ∧ USER_CODE_BASE/4096 ≤ n ∧ n < USER_CODE_BASE/4096+count) ∨
    (prot = (PROT_READ ||| PROT_WRITE) ∧
      (n = USER_STACK_PAGE/4096 ∨ (a.heap_start/4096 ≤ n ∧ n < pageUp a.heap_end))) ∨
    Covers a.mmap_areas n prot := by
  constructor
  · intro granted
    cases granted with
    | code low high => exact .inl ⟨rfl,low,high⟩
    | stack here => exact .inr (.inl ⟨rfl,.inl here⟩)
    | heap low high => exact .inr (.inl ⟨rfl,.inr ⟨low,high⟩⟩)
    | area covers => exact .inr (.inr covers)
  · rintro (⟨rfl,low,high⟩ | ⟨rfl,here | ⟨low,high⟩⟩ | covers)
    · exact .code low high
    · exact .stack here
    · exact .heap low high
    · exact .area covers

/-- The bytes of pages are not in the records. -/
theorem granted_pages {s : Pages} {n prot : Nat} : Granted count { a with pages := s } n prot ↔ Granted count a n prot := by
  rw [granted_iff,granted_iff]

/-- Where the four kinds of pages lie: they follow each other. -/
theorem Recorded.places (recorded : Recorded count whole a) (fits : USER_CODE_BASE/4096+count ≤ USER_HEAP_START/4096) :
    USER_CODE_BASE/4096+count ≤ a.heap_start/4096 ∧ a.heap_start/4096 ≤ pageUp a.heap_end ∧
      pageUp a.heap_end ≤ USER_MMAP_START/4096 ∧ USER_MMAP_LIMIT/4096 = USER_STACK_PAGE/4096 := by
  have start : a.heap_start = 0x20000 := recorded.start
  have base : USER_HEAP_START/4096 = 0x20000/4096 := rfl
  have low := recorded.low
  have high : a.heap_end ≤ 0x3e000000 := recorded.high
  have limit : USER_MMAP_START/4096 = 0x3e000 := rfl
  unfold pageUp
  refine ⟨by omega,by omega,by omega,rfl⟩

/-- A page is granted once. -/
theorem Recorded.unique (recorded : Recorded count whole a) (fits : USER_CODE_BASE/4096+count ≤ USER_HEAP_START/4096)
    {n p q : Nat} (first : Granted count a n p) (second : Granted count a n q) : p = q := by
  obtain ⟨code,heap,mapped,stack⟩ := recorded.places fits
  have middle : USER_MMAP_START/4096 < USER_MMAP_LIMIT/4096 := by decide
  rw [granted_iff] at first second
  rcases first with ⟨rfl,low1,high1⟩ | ⟨rfl,here1⟩ | covers1
  · rcases second with ⟨rfl,_,_⟩ | ⟨rfl,here2⟩ | covers2
    · rfl
    · omega
    · have := covers_region recorded.tidy covers2
      omega
  · rcases second with ⟨rfl,_,_⟩ | ⟨rfl,_⟩ | covers2
    · omega
    · rfl
    · have := covers_region recorded.tidy covers2
      omega
  · have place := covers_region recorded.tidy covers1
    rcases second with ⟨rfl,_,_⟩ | ⟨rfl,here2⟩ | covers2
    · omega
    · omega
    · obtain ⟨i,here⟩ := covers1
      obtain ⟨j,there⟩ := covers2
      rw [recorded.tidy.unique here there] at here
      exact here.2.2.2.symm.trans there.2.2.2

/-! ### Calls keep the records -/

/-- Pages that are the same but for their bytes, or fewer where forks ran short. -/
theorem Recorded.pages (recorded : Recorded count whole a) {s : Pages}
    (fewer : ∀ n r, rights s n = some r → rights a.pages n = some r)
    (complete : whole → ∀ n, (rights a.pages n).isSome → (rights s n).isSome) : Recorded count whole { a with pages := s } := by
  refine ⟨recorded.tidy,recorded.start,recorded.low,recorded.high,?_,?_⟩
  · intro n r here
    obtain ⟨prot,granted,same⟩ := recorded.granted n r (fewer n r here)
    exact ⟨prot,granted_pages.mpr granted,same⟩
  · intro all n prot granted
    exact complete all n (recorded.complete all n prot (granted_pages.mp granted))

/-- A change that grants pages and maps them, or takes back both, keeps the records. -/
theorem Recorded.change (recorded : Recorded count whole a) {b : Image} (tidy : Tidy b.mmap_areas)
    (start : b.heap_start = a.heap_start) (low : a.heap_start ≤ b.heap_end) (high : b.heap_end ≤ USER_HEAP_LIMIT)
    (lo hi : Nat) (gain : Option Nat)
    (pages : ∀ n, rights b.pages n = if lo ≤ n ∧ n < hi then gain.map protRights else rights a.pages n)
    (grants : ∀ n prot, Granted count b n prot ↔ if lo ≤ n ∧ n < hi then gain = some prot else Granted count a n prot) :
    Recorded count whole b := by
  refine ⟨tidy,start.trans recorded.start,by rw [start]; exact low,high,?_,?_⟩
  · intro n r here
    rw [pages] at here
    by_cases inside : lo ≤ n ∧ n < hi
    · rw [if_pos inside] at here
      obtain ⟨prot,gained,rfl⟩ := Option.map_eq_some_iff.mp here
      exact ⟨prot,(grants n prot).mpr (by rw [if_pos inside]; exact gained),rfl⟩
    · rw [if_neg inside] at here
      obtain ⟨prot,granted,same⟩ := recorded.granted n r here
      exact ⟨prot,(grants n prot).mpr (by rw [if_neg inside]; exact granted),same⟩
  · intro all n prot granted
    rw [grants] at granted
    rw [pages]
    by_cases inside : lo ≤ n ∧ n < hi
    · rw [if_pos inside] at granted ⊢
      rw [granted]
      rfl
    · rw [if_neg inside] at granted ⊢
      exact recorded.complete all n prot granted

variable (recorded : Recorded count whole a) (fits : USER_CODE_BASE/4096+count ≤ USER_HEAP_START/4096)

include recorded fits

theorem recorded_munmap (addr len : Nat) : Recorded count whole (Eager.munmap addr len a) := by
  unfold Eager.munmap
  cases accepted : Eager.munmapEnd addr len with
  | none => exact recorded
  | some stop =>
    dsimp only
    split
    · cases removed : remove_mmap_range a.mmap_areas addr stop with
      | error e => exact recorded
      | ok areas =>
        dsimp only
        obtain ⟨aligned,whole_pages,order,low,high⟩ := munmapEnd_some accepted
        obtain ⟨tidy,covers⟩ := remove_mmap_range_covers recorded.tidy aligned whole_pages order removed
        obtain ⟨code,heap,mapped,stack⟩ := recorded.places fits
        refine recorded.change (b := { a with pages := _, mmap_areas := areas }) tidy rfl recorded.low recorded.high
          (addr/4096) (stop/4096) none (fun n => ?_) fun n prot => ?_
        · rw [rights_unmap]
          rfl
        · rw [granted_iff]
          dsimp only
          rw [covers]
          by_cases inside : addr/4096 ≤ n ∧ n < stop/4096
          · rw [if_pos inside]
            have first : USER_MMAP_START/4096 ≤ addr/4096 := Nat.div_le_div_right low
            have last : stop/4096 ≤ USER_MMAP_LIMIT/4096 := Nat.div_le_div_right high
            simp only [reduceCtorEq,iff_false]
            rintro (⟨_,_,_⟩ | ⟨_,_⟩ | ⟨_,no⟩)
            · omega
            · omega
            · exact no inside
          · rw [if_neg inside,granted_iff]
            simp only [inside,not_false_eq_true,and_true]
    · exact recorded

theorem recorded_brk (granted : Bool) (new_break : Nat) : Recorded count whole (Eager.brk granted new_break a) := by
  obtain ⟨code,heap,mapped,stack⟩ := recorded.places fits
  have apart : USER_HEAP_LIMIT/4096 = USER_MMAP_START/4096 ∧ USER_MMAP_START/4096 < USER_MMAP_LIMIT/4096 := by decide
  have low := recorded.low
  unfold Eager.brk
  by_cases refused : new_break < a.heap_start ∨ new_break > USER_HEAP_LIMIT ∨ new_break = 0
  · rw [if_pos refused]
    exact recorded
  rw [if_neg refused]
  have below : pageUp new_break ≤ USER_MMAP_START/4096 := by
    have limit : USER_HEAP_LIMIT = 0x3e000000 := rfl
    have first : USER_MMAP_START/4096 = 0x3e000 := rfl
    unfold pageUp
    omega
  have above : a.heap_start/4096 ≤ pageUp new_break := by
    unfold pageUp
    omega
  by_cases grows : new_break > a.heap_end
  · rw [if_pos grows]
    have order : pageUp a.heap_end ≤ pageUp new_break := by
      unfold pageUp
      omega
    split
    · refine recorded.change (b := { a with pages := _, heap_end := new_break }) recorded.tidy rfl
        (show a.heap_start ≤ new_break by omega) (show new_break ≤ USER_HEAP_LIMIT by omega)
        (pageUp a.heap_end) (pageUp new_break) (some (PROT_READ ||| PROT_WRITE)) (fun n => ?_) fun n prot => ?_
      · rw [rights_fillPages]
        rfl
      · rw [granted_iff]
        dsimp only
        by_cases inside : pageUp a.heap_end ≤ n ∧ n < pageUp new_break
        · rw [if_pos inside,Option.some.injEq]
          constructor
          · rintro (⟨_,_,_⟩ | ⟨same,_⟩ | covers)
            · omega
            · exact same.symm
            · have := covers_region recorded.tidy covers
              omega
          · rintro rfl
            exact .inr (.inl ⟨rfl,.inr ⟨by omega,inside.2⟩⟩)
        · rw [if_neg inside,granted_iff]
          have same : a.heap_start/4096 ≤ n ∧ n < pageUp new_break ↔ a.heap_start/4096 ≤ n ∧ n < pageUp a.heap_end := by omega
          rw [same]
    · exact recorded
  · rw [if_neg grows]
    have order : pageUp new_break ≤ pageUp a.heap_end := by
      unfold pageUp
      omega
    refine recorded.change (b := { a with pages := _, heap_end := new_break }) recorded.tidy rfl
        (show a.heap_start ≤ new_break by omega) (show new_break ≤ USER_HEAP_LIMIT by omega)
      (pageUp new_break) (pageUp a.heap_end) none (fun n => ?_) fun n prot => ?_
    · rw [rights_unmap]
      rfl
    · rw [granted_iff]
      dsimp only
      by_cases inside : pageUp new_break ≤ n ∧ n < pageUp a.heap_end
      · rw [if_pos inside]
        simp only [reduceCtorEq,iff_false]
        rintro (⟨_,_,_⟩ | ⟨_,_⟩ | covers)
        · omega
        · omega
        · have := covers_region recorded.tidy covers
          omega
      · rw [if_neg inside,granted_iff]
        have same : a.heap_start/4096 ≤ n ∧ n < pageUp new_break ↔ a.heap_start/4096 ≤ n ∧ n < pageUp a.heap_end := by omega
        rw [same]

theorem recorded_mmap (granted : Bool) (addr len prot flags offset : Nat) :
    Recorded count whole (Eager.mmap granted addr len prot flags offset a) := by
  obtain ⟨code,heap,mapped,stack⟩ := recorded.places fits
  unfold Eager.mmap
  cases accepted : Eager.mmapLength len prot flags offset with
  | none => exact recorded
  | some whole_len =>
    dsimp only
    obtain ⟨pages,nonempty⟩ := mmapLength_some accepted
    split
    · rename_i start slot chosen free
      have gap := choose_mmap_addr_gap chosen
      have unused := find_free_mmap_slot_some free
      have tidy : Tidy (Function.update a.mmap_areas slot { start, len := whole_len, prot, flags, used := true }) :=
        tidy_mapped recorded.tidy pages nonempty gap
      obtain ⟨aligned,above,below,apart⟩ := gap
      split
      · have here (n p : Nat) : Holds { start, len := whole_len, prot, flags, used := true } n p ↔
            (start/4096 ≤ n ∧ n < (start+whole_len)/4096) ∧ prot = p := by
          unfold Holds MmapArea.area_end
          simp only [true_and,and_assoc]
        refine recorded.change (b := { a with pages := _, mmap_areas := _ }) tidy rfl recorded.low recorded.high
          (start/4096) ((start+whole_len)/4096) (some prot) (fun n => ?_) fun n p => ?_
        · rw [rights_fillPages]
          simp only [Eager.protPage,Page.zero,protRights,Option.map_some]
        · rw [granted_iff]
          dsimp only
          rw [covers_insert unused,here]
          have first : USER_MMAP_START/4096 ≤ start/4096 := Nat.div_le_div_right above
          have last : (start+whole_len)/4096 ≤ USER_MMAP_LIMIT/4096 := Nat.div_le_div_right below
          by_cases inside : start/4096 ≤ n ∧ n < (start+whole_len)/4096
          · rw [if_pos inside,Option.some.injEq]
            constructor
            · rintro (⟨_,_,_⟩ | ⟨_,_⟩ | ⟨_,same⟩ | ⟨i,used,low,high,_⟩)
              · omega
              · omega
              · exact same
              · have clear := apart_iff.mp (apart i used)
                obtain ⟨aligned',pages',_,_,_⟩ := recorded.tidy.placed i used
                unfold MmapArea.area_end at clear high
                omega
            · exact fun same => .inr (.inr (.inl ⟨inside,same⟩))
          · rw [if_neg inside,granted_iff]
            simp only [inside,false_and,false_or]
      · exact recorded
    · exact recorded

end

/-- Every call but exec keeps the records. -/
theorem recorded_closed {count : Nat} (whole : Prop) (fits : USER_CODE_BASE/4096+count ≤ USER_HEAP_START/4096) :
    Closed (fun number _ => number ≠ SYS_EXEC) (Recorded count whole) := by
  refine ⟨?_,?_⟩
  · intro a s recorded same
    exact recorded.pages (fun n r here => by rw [← same]; exact here) fun _ n here => by rw [same]; exact here
  · rintro granted number args a input not_exec (rfl | rfl | rfl | rfl) recorded
    · exact recorded_munmap recorded fits ..
    · exact recorded_brk recorded fits ..
    · exact absurd rfl not_exec
    · unfold Eager.call
      rw [if_neg (by decide),if_neg (by decide),if_neg (by decide),if_neg (by decide),if_neg (by decide),if_neg (by decide),
        if_pos rfl]
      dsimp only
      exact recorded_mmap recorded fits granted (args 0) (args 1) (args 2) (args 3) (args 5)

/-- A child of a fork that is short of frames has no page that its records do not grant. -/
theorem recorded_thinned {count : Nat} {whole : Prop} (short : ¬ whole) : Thinned (Recorded count whole) := by
  intro a s recorded fewer
  refine recorded.pages (fun n r here => ?_) fun all => absurd all short
  unfold rights at here ⊢
  rcases fewer n with same | none
  · rw [← same]
    exact here
  · rw [none] at here
    cases here

/-- The records of init when it begins. -/
theorem recorded_boot {cfg : Config} {k : Kernel} (whole : Prop) (run : boot cfg = .user k) :
    ProgramFits cfg ∧ Imaged (Recorded (pageUp (progLen cfg)) whole) k := by
  obtain ⟨r,s,m,g,rfl,launch⟩ := boot_launch false run
  refine ⟨launch.fits,?_⟩
  intro i p slot live
  rw [imageAt_eq launch.user.inv slot (live_there live)]
  obtain ⟨rfl,rfl⟩ := launched_only slot
  obtain ⟨there,code,stack⟩ := launch.initial
  have grants {n prot : Nat} : Granted (pageUp (progLen cfg)) (imageOf (launched cfg r s m).mm g (initProcess r s)) n prot ↔
      (prot = (PROT_READ ||| PROT_EXEC) ∧ USER_CODE_BASE/4096 ≤ n ∧ n < USER_CODE_BASE/4096+pageUp (progLen cfg)) ∨
      (prot = (PROT_READ ||| PROT_WRITE) ∧ n = USER_STACK_PAGE/4096) := by
    have empty : pageUp USER_HEAP_START = USER_HEAP_START/4096 := rfl
    rw [granted_iff]
    simp only [imageOf,initProcess,covers_empty,or_false,empty]
    have no_heap : ¬ (USER_HEAP_START/4096 ≤ n ∧ n < USER_HEAP_START/4096) := by omega
    simp only [no_heap,or_false]
  have pages : ∀ n, (imageOf (launched cfg r s m).mm g (initProcess r s)).pages n =
      space (launched cfg r s m).mm g r n := fun _ => rfl
  have apart : ¬ (USER_STACK_PAGE/4096 < USER_HEAP_START/4096) := by decide
  have fits : USER_CODE_BASE/4096+pageUp (progLen cfg) ≤ USER_HEAP_START/4096 := launch.fits
  refine ⟨tidy_empty,rfl,le_refl _,show USER_HEAP_START ≤ USER_HEAP_LIMIT by decide,?_,?_⟩
  · intro n rt here
    unfold rights at here
    rw [pages] at here
    obtain ⟨page,found,rfl⟩ := Option.map_eq_some_iff.mp here
    have inside := (there n).mp (by rw [found]; rfl)
    by_cases top : n = USER_STACK_PAGE/4096
    · rw [top] at found
      obtain ⟨readable,writable,executable⟩ := stack page found
      refine ⟨_,grants.mpr (.inr ⟨rfl,top⟩),?_⟩
      rw [readable,writable,executable]
      decide
    · obtain ⟨readable,writable,executable⟩ := code n page top found
      refine ⟨_,grants.mpr (.inl ⟨rfl,inside.resolve_right top⟩),?_⟩
      rw [readable,writable,executable]
      decide
  · intro _ n prot granted
    rw [rights_isSome,pages,there]
    exact (grants.mp granted).imp And.right And.right

/-- Any event but an exec or a wait with a bad status pointer. -/
def Tame (k : Kernel) (e : Event) : Prop := WaitsWell k e ∧ ¬ Calls e SYS_EXEC

/-- Such an event that is no fork short of frames for tables. -/
def Steady (k : Kernel) (e : Event) : Prop := Tame k e ∧ ForksWhole k e

section
variable {cfg : Config} {allowed : Kernel → Event → Prop} {k : Kernel} {i : Fin MAX_PROCESSES} {p : Process}

/-- The records of every living process, in every state reached without exec. -/
theorem reachable_recorded (whole : Prop)
    (lawful : ∀ k e, allowed k e → Tame k e ∧ (whole → ForksWhole k e))
    (reached : Reachable cfg allowed k) (slot : k.process_list i = some p) (live : Live (header p)) :
    ProgramFits cfg ∧ Recorded (pageUp (progLen cfg)) whole (imageAt k.mm p) := by
  have booted : ProgramFits cfg := by
    clear slot live
    induction reached with
    | boot run => exact (recorded_boot whole run).1
    | step _ _ _ ih => exact ih
  refine ⟨booted,?_⟩
  refine @reachable_images _ _ (fun number _ => number ≠ SYS_EXEC) _ ?_ (recorded_closed whole booted)
    (fun k run => (recorded_boot whole run).2) _ reached i p slot live
  intro k e admitted
  obtain ⟨⟨waits,not_exec⟩,forks⟩ := lawful k e admitted
  refine ⟨waits,?_,?_⟩
  · by_cases all : whole
    · exact .inl (forks all)
    · exact .inr (recorded_thinned all)
  · rintro number calls rfl
    exact not_exec calls

/-! ### The page table -/

/-- The pages that the records of a process give it: the boot code, the stack, the heap and the used mmap areas. -/
def recordedPages (cfg : Config) (p : Process) : Set Nat :=
  { n | (USER_CODE_BASE ≤ n*4096 ∧ n*4096 < USER_CODE_BASE+progLen cfg) ∨ n*4096 = USER_STACK_PAGE ∨
    (p.heap_start ≤ n*4096 ∧ n*4096 < mask_page (p.heap_end+4095)) ∨
    ∃ i, (p.mmap_areas i).used = true ∧ (p.mmap_areas i).start ≤ n*4096 ∧ n*4096 < (p.mmap_areas i).area_end }

theorem granted_recorded {count : Nat} {whole : Prop} (recorded : Recorded count whole (imageAt k.mm p))
    (length : count = pageUp (progLen cfg)) {n : Nat} :
    (∃ prot, Granted count (imageAt k.mm p) n prot) ↔ n ∈ recordedPages cfg p := by
  have start : p.heap_start = 32*4096 := recorded.start
  have code : USER_CODE_BASE = 16*4096 := rfl
  have stack : USER_STACK_PAGE = 0x3f000*4096 := rfl
  subst length
  unfold recordedPages
  rw [Set.mem_ofPred_eq]
  constructor
  · rintro ⟨prot,granted⟩
    rw [granted_iff] at granted
    unfold pageUp at granted
    simp only [imageAt] at granted
    rcases granted with ⟨_,low,high⟩ | ⟨_,here | ⟨low,high⟩⟩ | ⟨i,used,low,high,_⟩
    · exact .inl (by omega)
    · exact .inr (.inl (by omega))
    · refine .inr (.inr (.inl ?_))
      unfold mask_page
      omega
    · obtain ⟨aligned,pages,_⟩ := recorded.tidy.placed i used
      simp only [imageAt] at used aligned pages
      unfold MmapArea.area_end at high
      exact .inr (.inr (.inr ⟨i,used,by omega,by unfold MmapArea.area_end; omega⟩))
  · simp only [granted_iff]
    unfold pageUp mask_page
    simp only [imageAt]
    rintro (inside | here | inside | ⟨i,used,low,high⟩)
    · exact ⟨_,.inl ⟨rfl,by omega,by omega⟩⟩
    · exact ⟨_,.inr (.inl ⟨rfl,.inl (by omega)⟩)⟩
    · exact ⟨_,.inr (.inl ⟨rfl,.inr ⟨by omega,by omega⟩⟩)⟩
    · obtain ⟨aligned,pages,_⟩ := recorded.tidy.placed i used
      simp only [imageAt] at aligned pages
      unfold MmapArea.area_end at high
      refine ⟨_,.inr (.inr ⟨i,used,by omega,?_,rfl⟩)⟩
      unfold MmapArea.area_end
      omega

theorem pagesOf_mapped (m : Mm) (pt : PageTable) (n : Nat) : (pagesOf m pt n).isSome ↔ n ∈ mapped m pt := by
  unfold pagesOf mapped
  rw [Set.mem_ofPred_eq]
  by_cases inside : n < 2^27
  · rw [if_pos inside,Option.isSome_map]
    exact ⟨fun here => ⟨inside,here⟩,And.right⟩
  · rw [if_neg inside]
    exact iff_of_false (by simp) fun both => inside both.1

/-- The address-space records of every living process are in order, and the pages with a valid user leaf are exactly
    those they give. -/
theorem records_match (reached : Reachable cfg Steady k) (slot : k.process_list i = some p)
    (live : p.state = .Ready ∨ p.state = .Running ∨ p.state = .Blocked) :
    (∀ j, (p.mmap_areas j).used = true → (p.mmap_areas j).start%4096 = 0 ∧ (p.mmap_areas j).len%4096 = 0 ∧
      0 < (p.mmap_areas j).len ∧ USER_MMAP_START ≤ (p.mmap_areas j).start ∧ (p.mmap_areas j).area_end ≤ USER_MMAP_LIMIT) ∧
    (∀ j l, j ≠ l → (p.mmap_areas j).used = true → (p.mmap_areas l).used = true →
      (p.mmap_areas j).area_end ≤ (p.mmap_areas l).start ∨ (p.mmap_areas l).area_end ≤ (p.mmap_areas j).start) ∧
    p.heap_start ≤ p.heap_end ∧ p.heap_end ≤ USER_HEAP_LIMIT ∧ mapped k.mm p.page_table = recordedPages cfg p := by
  obtain ⟨_,recorded⟩ := reachable_recorded True (fun k e may => ⟨may.1,fun _ => may.2⟩) reached slot live
  refine ⟨?_,?_,recorded.low,recorded.high,?_⟩
  · intro j used
    obtain ⟨aligned,whole,nonempty,low,high⟩ := recorded.tidy.placed j used
    exact ⟨aligned,whole,nonempty,low,high⟩
  · intro j l other used used'
    exact (apart_iff.mp (recorded.tidy.apart j l other used used')).imp id id
  · ext n
    rw [← pagesOf_mapped,← granted_recorded recorded rfl]
    have pages : (pagesOf k.mm p.page_table n).isSome = (rights (imageAt k.mm p).pages n).isSome := (rights_isSome ..).symm
    rw [pages]
    constructor
    · intro here
      obtain ⟨r,found⟩ := Option.isSome_iff_exists.mp here
      obtain ⟨prot,granted,_⟩ := recorded.granted n r found
      exact ⟨prot,granted⟩
    · rintro ⟨prot,granted⟩
      exact recorded.complete trivial n prot granted

end

theorem plain_steady {k : Kernel} {e : Event} (plain : Plain k e) : Steady k e :=
  ⟨⟨plain.waits,plain.stays⟩,fun calls me running _ => plain.forks calls me running⟩

/-- After a break, a mapping, a fork and a store of init, parent and child have the pages that their records say, that of
    the mapping among them. -/
theorem records_match_after_store : ∃ k init child, Reachable (sample true) Steady k ∧
    k.process_list 0 = some init ∧ k.process_list 1 = some child ∧ init.heap_end = 0x21000 ∧
    mapped k.mm init.page_table = recordedPages (sample true) init ∧
    mapped k.mm child.page_table = recordedPages (sample true) child ∧ 0x3e000 ∈ mapped k.mm child.page_table := by
  obtain ⟨_,k,init,child,run,_,wrote⟩ := sample_wrote
  have reached : Reachable (sample true) Steady k := (run_mono (fun _ _ => plain_steady) run).reachable
  obtain ⟨first,second⟩ := pair_headers wrote.procs wrote.slot wrote.slotC
  have stateI : init.state = .Running := congrArg Lifecycle.Header.state first
  have stateC : child.state = .Ready := congrArg Lifecycle.Header.state second
  have pages := (records_match reached wrote.slotC (.inl stateC)).2.2.2.2
  obtain ⟨i,_,area⟩ := wrote.areas
  refine ⟨k,init,child,reached,wrote.slot,wrote.slotC,wrote.heaps.1,
    (records_match reached wrote.slot (.inr (.inl stateI))).2.2.2.2,pages,?_⟩
  rw [pages]
  refine .inr (.inr (.inr ⟨i,?_,?_,?_⟩))
  · rw [area]
  · rw [area]
  · rw [area]
    decide

/-! ### Permissions -/

/-- The bits of a leaf are those of a protection. A page that may be written is writable now or copied on write. -/
structure Faithful (e : PTEntry) (prot : Nat) : Prop where
  valid : is_valid e = true
  user : is_u e = true
  readable : is_r e = true ↔ has prot PROT_READ = true ∨ has prot PROT_WRITE = true
  executable : is_x e = true ↔ has prot PROT_EXEC = true
  exclusive : ¬ (is_w e = true ∧ is_cow e = true)
  writable : is_w e = true ∨ is_cow e = true ↔ has prot PROT_WRITE = true

theorem userLeaf_rights {m : Mm} {pt : PageTable} {n : Nat} {e : PTEntry} (inside : n < 2^27)
    (found : userLeaf m pt (n*4096) = some e) : rights (pagesOf m pt) n = some ⟨is_r e,is_w e || is_cow e,is_x e⟩ := by
  unfold rights pagesOf
  rw [if_pos inside,found]
  rfl

section
variable {exact : Bool} {o : Origin} {k : Kernel} {g : Ledger} {me : Process}

/-- A leaf has the bits of the protection that its page was granted with. -/
theorem granted_faithful {count : Nat} {whole : Prop} {p : Process} (good : Good exact o.base k.mm g)
    (isRoot : g.own p.page_table.root = .root) (recorded : Recorded count whole (imageAt k.mm p))
    (fits : USER_CODE_BASE/4096+count ≤ USER_HEAP_START/4096) {n : Nat} {e : PTEntry} (inside : n < 2^27)
    (found : userLeaf k.mm p.page_table (n*4096) = some e) :
    (∃ prot, Granted count (imageAt k.mm p) n prot) ∧ ∀ prot, Granted count (imageAt k.mm p) n prot → Faithful e prot := by
  have leaf := (userLeaf_page good p.page_table isRoot inside).mp found
  have shape := good.sound.shape leaf
  obtain ⟨q,granted,same⟩ := recorded.granted n _ (userLeaf_rights inside found)
  refine ⟨⟨q,granted⟩,fun prot granted' => ?_⟩
  rw [recorded.unique fits granted' granted]
  unfold protRights at same
  injection same with readable writable executable
  refine ⟨leaf.valid,leaf.user,?_,?_,?_,?_⟩
  · rw [readable,Bool.or_eq_true]
  · rw [executable]
  · rintro ⟨now,later⟩
    rw [(shape.cow later).2] at now
    cases now
  · rw [← writable,Bool.or_eq_true]

/-! ### Store faults -/

/-- A process that dies is a zombie from then on. -/
theorem ended_dies (sound : Lifecycle.Sound (procs k)) (running : k.process_list k.current = some me) (mm : Mm)
    (output : List (BitVec 8)) (code : Nat) (α : Type) :
    ∃ why t q, (schedule : K α).run (ended k me mm output code) = .error why t ∧ t.process_list k.current = some q ∧
      q.pid = me.pid ∧ q.state = .Zombie code := by
  have slot : slots (ended k me mm output code).process_list k.current = some { header me with state := .Zombie code } := by
    rw [slots_ended,dieSlots_eq sound (slots_some running)]
    exact if_pos rfl
  obtain ⟨cur,here,same⟩ := slots_inv slot
  have pid : cur.pid = me.pid := congrArg Header.pid same
  have dead : cur.state = .Zombie code := congrArg Header.state same
  obtain ⟨q,mine,pidQ,stateQ⟩ : ∃ q, (saved (ended k me mm output code) cur).process_list k.current = some q ∧
      q.pid = cur.pid ∧ q.state = cur.state := ⟨_,Function.update_self ..,rfl,rfl⟩
  rcases schedule_cases (k := ended k me mm output code) here with ⟨run,_⟩ | ⟨j,next,run,chosen,ready,_⟩
  · exact ⟨_,_,q,run α,mine,pidQ.trans pid,stateQ.trans dead⟩
  · have other : k.current ≠ j := by
      rintro rfl
      rw [mine,Option.some.injEq] at chosen
      rw [← chosen,stateQ,dead] at ready
      cases ready
    exact ⟨_,_,q,run α,(Function.update_of_ne other _ _).trans mine,pidQ.trans pid,stateQ.trans dead⟩

variable (user : InUser exact o k g) (running : k.process_list k.current = some me) (awake : me.state = .Running)

include user running awake

/-- Any other store fault is fatal. -/
theorem store_fault_kills (sound : Lifecycle.Sound (procs k)) (ctx : Context) {va : BitVec 64}
    (plain : ¬ CowPage g me.page_table.root (pageOf va.toNat)) :
    ∃ why t q, (page_fault_handler 15 va).run (entered ctx 15 va k me) = .error why t ∧ t.process_list k.current = some q ∧
      q.pid = me.pid ∧ q.state = .Zombie 1 := by
  obtain ⟨inv,_,slot,_,_⟩ := entered_inv user running awake ctx 15 va
  have there : (stopped ctx 15 va me).state ≠ .Gone := by
    rw [show (stopped ctx 15 va me).state = .Running from awake]
    simp
  have isRoot := inv.link.root slot there
  rcases cow_entry_spec inv.good (stopped ctx 15 va me).page_table isRoot va.toNat with ⟨e,entry,leaf,marked,_,_⟩ | ⟨_,found⟩
  · exact absurd ⟨e,leaf,marked⟩ plain
  · obtain ⟨output,dies⟩ := run_segfault slot Nat 15 va
    obtain ⟨why,t,q,run,here,pid,dead⟩ := ended_dies (k := entered ctx 15 va k me) (by rw [procs_entered running]; exact sound)
      slot (entered ctx 15 va k me).mm output 1 Nat
    refine ⟨why,t,q,?_,here,pid,dead⟩
    rw [← run,← dies]
    unfold page_fault_handler
    dsimp only
    rw [if_neg (by decide),run_seq (run_current slot),run_seq (onMm_ok (k := entered ctx 15 va k me) found)]

end

section
variable {cfg : Config} {k : Kernel} {i : Fin MAX_PROCESSES} {p : Process}

/-- Every leaf of a living process has the bits of the protection of its page. While there are frames, a store fault
    is resolved exactly on the mapped pages that were granted to be written, and is fatal everywhere else. -/
theorem permissions_faithful (reached : Reachable cfg Tame k) (slot : k.process_list i = some p)
    (live : p.state = .Ready ∨ p.state = .Running ∨ p.state = .Blocked) :
    (∀ n e, n < 2^27 → userLeaf k.mm p.page_table (n*4096) = some e →
      (∃ prot, Granted (pageUp (progLen cfg)) (imageAt k.mm p) n prot) ∧
      ∀ prot, Granted (pageUp (progLen cfg)) (imageAt k.mm p) n prot → Faithful e prot) ∧
    (Reachable cfg Steady k → ∀ n prot, Granted (pageUp (progLen cfg)) (imageAt k.mm p) n prot →
      (userLeaf k.mm p.page_table (n*4096)).isSome) ∧
    (i = k.current → 0 < freeFrames k.mm → ∀ (ctx : Context) (va : BitVec 64) (value : BitVec 8), va.toNat < 2^38 →
      translate k.hart k.mm.mem .user .store va.toNat = none →
      ((∃ prot, Granted (pageUp (progLen cfg)) (imageAt k.mm p) (va.toNat/4096) prot ∧ has prot PROT_WRITE = true) ∧
          (userLeaf k.mm p.page_table va.toNat).isSome →
        ∃ t k', (page_fault_handler 15 va).run (entered ctx 15 va k p) = .ok 0 t ∧
          step ⟨ctx,.store va value⟩ k = .user k' ∧ k'.current = k.current ∧
          (translate k'.hart k'.mm.mem .user .store va.toNat).isSome) ∧
      (¬ ((∃ prot, Granted (pageUp (progLen cfg)) (imageAt k.mm p) (va.toNat/4096) prot ∧ has prot PROT_WRITE = true) ∧
          (userLeaf k.mm p.page_table va.toNat).isSome) →
        ∃ why t q, (page_fault_handler 15 va).run (entered ctx 15 va k p) = .error why t ∧
          t.process_list k.current = some q ∧ q.pid = p.pid ∧ q.state = .Zombie 1)) := by
  obtain ⟨fits,recorded⟩ := reachable_recorded False (fun _ _ may => ⟨may,False.elim⟩) reached slot live
  obtain ⟨_,_,_,_,g,_,_,user⟩ := reachable_user false (fun k e (may : Tame k e) => ⟨may.1,by simp⟩) reached
  have good := user.inv.good
  have isRoot := user.inv.link.root slot (live_there live)
  have faithful {n : Nat} {e : PTEntry} := granted_faithful good isRoot recorded fits (n := n) (e := e)
  refine ⟨fun n e => faithful,?_,?_⟩
  · intro steady n prot granted
    obtain ⟨_,complete⟩ := reachable_recorded True (fun _ _ (may : Steady _ _) => ⟨may.1,fun _ => may.2⟩) steady slot live
    have there := complete.complete trivial n prot granted
    rw [rights_isSome] at there
    exact ((pagesOf_mapped k.mm p.page_table n).mp there).2
  · rintro rfl frames ctx va value low fault
    obtain ⟨me,running,awake⟩ := reachable_awake reached
    rw [slot,Option.some.injEq] at running
    subst running
    have page : pageOf va.toNat = va.toNat/4096 := by
      unfold pageOf
      omega
    have inside : va.toNat/4096 < 2^27 := by omega
    have low' : canonical va.toNat = true := by
      unfold canonical
      rw [decide_eq_true low]
      rfl
    have leaf_page {e : PTEntry} : userLeaf k.mm p.page_table va.toNat = some e ↔
        userLeaf k.mm p.page_table (va.toNat/4096*4096) = some e := by
      rw [userLeaf_iff good p.page_table isRoot,userLeaf_page good p.page_table isRoot inside,page]
    have enough : 0 < room g := by
      rw [← freeFrames_eq good.mirrors.pool]
      exact frames
    -- A store that faults meets no writable leaf, so the page may be written only if it is copied on write.
    have cow_iff : ((∃ prot, Granted (pageUp (progLen cfg)) (imageAt k.mm p) (va.toNat/4096) prot ∧
          has prot PROT_WRITE = true) ∧ (userLeaf k.mm p.page_table va.toNat).isSome) ↔
        CowPage g p.page_table.root (pageOf va.toNat) := by
      constructor
      · rintro ⟨⟨prot,granted,writes⟩,mapped⟩
        obtain ⟨e,found⟩ := Option.isSome_iff_exists.mp mapped
        have leaf := (userLeaf_iff good p.page_table isRoot).mp found
        have bits := (faithful inside (leaf_page.mp found)).2 prot granted
        refine ⟨e,leaf,?_⟩
        by_contra plain
        have writable := (bits.writable.mpr writes).resolve_right plain
        rw [translate_leaf good (user.home _ slot) leaf,if_pos] at fault
        · cases fault
        · rw [low',Bool.eq_false_of_not_eq_true plain,permits]
          simp [writable,leaf.user]
      · rintro ⟨e,leaf,cow⟩
        have found := (userLeaf_iff good p.page_table isRoot).mpr leaf
        obtain ⟨⟨prot,granted⟩,bits⟩ := faithful inside (leaf_page.mp found)
        exact ⟨⟨prot,granted,(bits prot granted).writable.mp (.inr cow)⟩,by rw [found]; rfl⟩
    rw [cow_iff]
    refine ⟨fun cow => ?_,fun plain => store_fault_kills user slot awake (reachable_sound reached) ctx plain⟩
    obtain ⟨t,k',_,run,next,current,passes,_⟩ := cow_fault_resolved user slot awake ctx va value cow low' fault enough
    exact ⟨t,k',run,next,current,passes⟩

end

/-- The heap page that init shares with its child was granted to be written, and its store to it is resolved. -/
theorem permissions_faithful_at_shared : ∃ k init e prot t k', Reachable (sample true) Tame k ∧ k.process_list k.current = some init ∧
    userLeaf k.mm init.page_table (32*4096) = some e ∧ is_cow e = true ∧
    Granted (pageUp (progLen (sample true))) (imageAt k.mm init) 32 prot ∧ has prot PROT_WRITE = true ∧ Faithful e prot ∧
    (page_fault_handler 15 0x20000).run (entered heapStore.ctx 15 0x20000 k init) = .ok 0 t ∧
    step heapStore k = .user k' ∧ (translate k'.hart k'.mm.mem .user .store 0x20000).isSome := by
  obtain ⟨_,o,k,g,init,child,run,_,shared⟩ := sample_shared
  have reached : Reachable (sample true) Tame k := (run_mono (fun _ _ plain => (plain_steady plain).1) run).reachable
  have good := shared.user.inv.good
  have isRoot := me_root shared.user shared.running shared.awake
  obtain ⟨e,leaf,cow⟩ := shared.cow
  have found : userLeaf k.mm init.page_table (32*4096) = some e := (userLeaf_page good _ isRoot (by decide)).mpr leaf
  obtain ⟨faithful,_,resolves⟩ := permissions_faithful reached shared.running (.inr (.inl shared.awake))
  obtain ⟨⟨prot,granted⟩,bits⟩ := faithful 32 e (by decide) found
  have write := (bits prot granted).writable.mp (.inr cow)
  obtain ⟨good',_⟩ := resolves rfl (by rw [freeFrames_eq good.mirrors.pool]; exact shared.frames) heapStore.ctx 0x20000 7 (by decide)
    shared.denied
  obtain ⟨t,k',handled,next,_,passes⟩ := good' ⟨⟨prot,granted,write⟩,by rw [show (0x20000 : BitVec 64).toNat = 32*4096 from rfl,found]; rfl⟩
  exact ⟨k,init,e,prot,t,k',reached,shared.running,found,cow,granted,write,bits prot granted,handled,next,passes⟩

end Unit00.Records
