import Unit00.Isolation

/-!
Growing the address space is all or nothing. `sys_brk` and `sys_mmap` either map
every page of the new range to a zeroed frame of its own, or leave leaves, bytes
and counts as they were, up to tables that the walk attached on the way.
-/
namespace Unit00.Atomic
open Unit00.Memory Unit00.Execution Unit00.Frame Unit00.Paging Unit00.Paging.PTEntry Unit00.Trees Unit00.Ownership
open Unit00.Mirror Unit00.Space Unit00.Pages Unit00.Growing Unit00.Ranges Unit00.Forking Unit00.Access Unit00.Mmu
open Unit00.Task Unit00.Scheduler Unit00.Syscall Unit00.Machine Unit00.Lifecycle Unit00.Steps Unit00.Invariant
open Unit00.Services Unit00.Traps Unit00.View Unit00.Boot Unit00.Runs Unit00.Stages Unit00.Isolation
open Unit00.Eager (Page Pages pageUp)

/-! ### What a growing call promises -/

/-- A frame that `alloc_frame` can hand out. -/
def Available (m : Mm) (f : Nat) : Prop := f ∈ freeList m ∨ (m.next_frame ≤ f ∧ f < RAM_END)

/-- The bytes of every frame that a process has mapped are the same. -/
def SameBytes (k k' : Kernel) : Prop :=
  ∀ i p va e o, k.process_list i = some p → p.state ≠ .Gone → userLeaf k.mm p.page_table va = some e → o < 4096 →
    k'.mm.mem (ppn_to_addr e+o) = k.mm.mem (ppn_to_addr e+o)

/-- A frame that was free is a table of the page table now. -/
def Attached (root : Nat) (m m' : Mm) (f : Nat) : Prop :=
  refsOf m f = 0 ∧ refsOf m' f = 1 ∧ ¬ LowerTable m.mem root f ∧ LowerTable m'.mem root f

/-- Nothing was mapped: records, leaves, mapped bytes and counts are the same, new tables apart. -/
structure Untouched (root : Nat) (k k' : Kernel) : Prop where
  records : k'.process_list = k.process_list
  leaves : ∀ i p va, k.process_list i = some p → p.state ≠ .Gone → leafAt k'.mm p.page_table va = leafAt k.mm p.page_table va
  bytes : SameBytes k k'
  counts : ∀ f, f%4096 = 0 → RAM_BASE ≤ f → f < RAM_END → refsOf k'.mm f = refsOf k.mm f ∨ Attached root k.mm k'.mm f

/-- The pages from `lo` to `hi` of the running process, and no others, are new. -/
structure Extended (pt : PageTable) (lo hi : Nat) (flags : PTEFlags) (k k' : Kernel) : Prop where
  absent : ∀ n, lo ≤ n → n < hi → leafAt k.mm pt (n*4096) = none
  pages : ∀ n, lo ≤ n → n < hi → ∃ f, leafAt k'.mm pt (n*4096) = some (new_leaf f flags) ∧
    ppn_to_addr (new_leaf f flags) = f ∧ Available k.mm f ∧ refsOf k.mm f = 0 ∧ refsOf k'.mm f = 1 ∧
    ∀ o, o < 4096 → k'.mm.mem (f+o) = 0
  apart : ∀ n j e d, lo ≤ n → n < hi → lo ≤ j → j < hi → n ≠ j → leafAt k'.mm pt (n*4096) = some e →
    leafAt k'.mm pt (j*4096) = some d → ppn_to_addr e ≠ ppn_to_addr d
  others : ∀ i p va, k.process_list i = some p → p.state ≠ .Gone → ¬ (i = k.current ∧ lo ≤ pageOf va ∧ pageOf va < hi) →
    leafAt k'.mm p.page_table va = leafAt k.mm p.page_table va
  bytes : SameBytes k k'

/-- The running process with other records. -/
def recorded (k : Kernel) (me : Process) : Table := Function.update k.process_list k.current (some me)

/-- A break that is asked to grow. -/
def BreakGrows (me : Process) (new_break r : Nat) (k k' : Kernel) : Prop :=
  (r = me.heap_end ∧ Untouched me.page_table.root k k') ∨
  (r = new_break ∧ k'.process_list = recorded k { me with heap_end := new_break } ∧
    Extended me.page_table (pageUp me.heap_end) (pageUp new_break) (PTEFlags.new true true false true) k k')

/-- A new mapping. -/
def MappingGrows (me : Process) (len prot flags r : Nat) (k k' : Kernel) : Prop :=
  ((r = linux_error EINVAL ∨ r = linux_error ENOSYS ∨ r = linux_error ENOMEM) ∧ Untouched me.page_table.root k k') ∨
  ∃ slot pte_flags, r%4096 = 0 ∧ USER_MMAP_START ≤ r ∧ r+pageUp len*4096 ≤ USER_MMAP_LIMIT ∧
    pte_flags_from_prot prot = some pte_flags ∧
    k'.process_list = recorded k { me with
      mmap_areas := Function.update me.mmap_areas slot { start := r, len := pageUp len*4096, prot, flags, used := true } } ∧
    Extended me.page_table (r/4096) (r/4096+pageUp len) pte_flags k k'

/-! ### Leaves and counts of a ledger -/

/-- Frames that nobody uses have no references. -/
theorem refsOf_unused {exact : Bool} {base : Nat} {m : Mm} {g : Ledger} (good : Good exact base m g) {f : Nat}
    (unused : Unused g f) (aligned : f%4096 = 0) (low : RAM_BASE ≤ f) (high : f < RAM_END) : refsOf m f = 0 := by
  have pool := good.mirrors.pool
  rcases unused with free | none
  · have count := good.sound.others f (by rw [free]; simp) (by rw [free]; simp)
    rw [refsOf,pool.refs f (by rw [free]; simp),count,if_pos free]
    rfl
  · refine pool.fresh f aligned low ?_ high
    by_contra inside
    exact (pool.owned f).mpr ⟨aligned,by omega,by omega⟩ none

theorem available_unused {base : Nat} {m : Mm} {g : Ledger} (pool : Pool base m g) {f : Nat} (unused : Unused g f)
    (aligned : f%4096 = 0) (above : base ≤ f) (high : f < RAM_END) : Available m f := by
  rcases unused with free | none
  · left
    rw [freeList,cells_free pool]
    exact (pool.free f).mpr free
  · right
    rw [pool.next]
    refine ⟨?_,high⟩
    by_contra inside
    exact (pool.owned f).mpr ⟨aligned,above,by omega⟩ none

/-! ### From ledgers to machines -/

/-- Frames that were mapped keep their bytes. -/
theorem bytes_same {exact : Bool} {o : Origin} {k : Kernel} {g g' : Ledger} {me : Process} {mm : Mm} {lo hi : Nat} {flags : PTEFlags}
    (inv : Inv exact o k g) (grown : Grown me.page_table.root lo hi flags g g') (aside : Aside me.page_table.root k.mm mm g g')
    (pages : ∀ n, ¬ (lo ≤ n ∧ n < hi) → space mm g' me.page_table.root n = space k.mm g me.page_table.root n) {k' : Kernel}
    (memory : k'.mm = mm) : SameBytes k k' := by
  intro i p va e o slot there found inside
  have isRoot := inv.link.root slot there
  have leaf := (userLeaf_iff inv.good _ isRoot).mp found
  have outside : ¬ (p.page_table.root = me.page_table.root ∧ lo ≤ pageOf va ∧ pageOf va < hi) := by
    rintro ⟨same,low,high⟩
    have zero := grown.absent _ low high
    rw [← same,leaf.entry] at zero
    have valid := leaf.valid
    rw [zero,is_valid_zero] at valid
    cases valid
  have entry : (g'.tree p.page_table.root).leaf (pageOf va) = e := by
    rw [grown.leaf _ _ outside]
    exact leaf.entry
  have same : space mm g' p.page_table.root (pageOf va) = space k.mm g p.page_table.root (pageOf va) := by
    by_cases mine : p.page_table.root = me.page_table.root
    · rw [mine]
      exact pages _ fun both => outside ⟨mine,both⟩
    · rw [aside.spaces _ mine isRoot]
  have low := inv.good.sound.low leaf
  rw [space_low low,space_low low,entry,leaf.entry,pageAt_user leaf.valid leaf.user,pageAt_user leaf.valid leaf.user] at same
  have bytes := congrArg Page.bytes (Option.some.inj same)
  rw [memory]
  exact congrFun bytes ⟨o,inside⟩

section
variable {exact : Bool} {o : Origin} {k : Kernel} {g g' : Ledger} {me : Process} {mm : Mm} {lo hi : Nat} {flags : PTEFlags}
  (inv : Inv exact o k g) (running : k.process_list k.current = some me) (awake : me.state = .Running) (good' : Good exact o.base mm g')

include inv running awake good'

/-- Leaves outside the range of every process. -/
theorem leaves_same (roots : ∀ x, g'.own x = .root ↔ g.own x = .root) (grown : Grown me.page_table.root lo hi flags g g')
    {i : Fin MAX_PROCESSES} {p : Process} {va : Nat} (slot : k.process_list i = some p) (there : p.state ≠ .Gone)
    (outside : ¬ (i = k.current ∧ lo ≤ pageOf va ∧ pageOf va < hi)) :
    leafAt mm p.page_table va = leafAt k.mm p.page_table va := by
  have isRoot := inv.link.root slot there
  rw [leafAt_eq inv.good _ isRoot,leafAt_eq good' _ ((roots _).mpr isRoot),grown.leaf]
  rintro ⟨same,low,high⟩
  exact outside ⟨inv.link.own_root slot running there (by rw [awake]; simp) same,low,high⟩

/-- A frame keeps its count, becomes a table of the running process, or holds one of the new pages. -/
theorem counts_same (isRoot' : g'.own me.page_table.root = .root) (grown : Grown me.page_table.root lo hi flags g g') {f : Nat}
    (aligned : f%4096 = 0) (low : RAM_BASE ≤ f) (high : f < RAM_END) :
    refsOf mm f = refsOf k.mm f ∨ Attached me.page_table.root k.mm mm f ∨ ∃ n, lo ≤ n ∧ n < hi := by
  have isRoot := inv.link.root running (by rw [awake]; simp)
  by_cases unused : Unused g f
  · have before := refsOf_unused inv.good unused aligned low high
    rcases grown.made f unused with still | table | ⟨_,_,n,after,before,_⟩
    · left
      rw [before]
      exact refsOf_unused good' still aligned low high
    · right; left
      have one : refsOf mm f = 1 := by
        have held : g'.own f ≠ .none := by
          rcases table with ⟨v,h⟩ | ⟨j,h⟩ <;> rw [h] <;> simp
        rw [refsOf,good'.mirrors.pool.refs f held,good'.sound.others f ?_ held,if_neg]
        · rfl
        · rcases table with ⟨v,h⟩ | ⟨j,h⟩ <;> rw [h] <;> simp
        · rcases table with ⟨v,h⟩ | ⟨j,h⟩ <;> rw [h] <;> simp
      refine ⟨before,one,?_,(lowerTable_own good'.mirrors isRoot').mpr (.inr table)⟩
      rw [lowerTable_own inv.good.mirrors isRoot]
      rintro (rfl | ⟨v,h⟩ | ⟨j,h⟩)
      · rcases unused with h | h <;> rw [isRoot] at h <;> cases h
      · rcases unused with h' | h' <;> rw [h] at h' <;> cases h'
      · rcases unused with h' | h' <;> rw [h] at h' <;> cases h'
    · exact .inr (.inr ⟨n,after,before⟩)
  · left
    obtain ⟨owner,count⟩ := grown.kept f unused
    have held : g.own f ≠ .none := fun none => unused (.inr none)
    rw [refsOf,refsOf,inv.good.mirrors.pool.refs f held,good'.mirrors.pool.refs f (by rw [owner]; exact held),count]

/-- Nothing was mapped. -/
theorem untouched {n : Nat} (grown : Grown me.page_table.root n n flags g g')
    (acts : Acts exact o.base me.page_table.root k.mm mm g g' (space k.mm g me.page_table.root)) {k' : Kernel} (memory : k'.mm = mm)
    (table : k'.process_list = k.process_list) : Untouched me.page_table.root k k' := by
  have isRoot := inv.link.root running (by rw [awake]; simp)
  refine ⟨table,?_,?_,?_⟩
  · intro i p va slot there
    rw [memory]
    exact leaves_same inv running awake good' acts.aside.roots grown slot there (by omega)
  · exact bytes_same inv grown acts.aside (fun _ _ => by rw [acts.pages]) memory
  · intro f aligned low high
    rw [memory]
    rcases counts_same inv running awake good' ((acts.aside.roots _).mpr isRoot) grown aligned low high with
      same | table | ⟨j,after,before⟩
    · exact .inl same
    · exact .inr table
    · omega

/-- The range was mapped. -/
theorem extended (grown : Grown me.page_table.root lo hi flags g g') {p : Page} (zero : p.bytes = fun _ => 0) (few : hi ≤ 2^19)
    (user : UserFlags flags) (acts : Acts exact o.base me.page_table.root k.mm mm g g'
      (Eager.fillPages lo hi p (space k.mm g me.page_table.root))) {k' : Kernel} (memory : k'.mm = mm) :
    Extended me.page_table lo hi flags k k' := by
  have isRoot := inv.link.root running (by rw [awake]; simp)
  have isRoot' := (acts.aside.roots _).mpr isRoot
  have now : ∀ {n e}, lo ≤ n → n < hi → leafAt mm me.page_table (n*4096) = some e → (g'.tree me.page_table.root).leaf n = e := by
    intro n e low high found
    rw [leafAt_eq good' _ isRoot',pageOf_page (by omega)] at found
    exact (Option.filter_eq_some_iff.mp found).1 |> Option.some.inj
  refine ⟨?_,?_,?_,?_,?_⟩
  · intro n low high
    rw [leafAt_eq inv.good _ isRoot,pageOf_page (by omega),grown.absent n low high]
    rfl
  · intro n low high
    obtain ⟨f,entry,⟨aligned,bound⟩,unused,isUser,one⟩ := grown.pages n low high
    have held : g'.own f ≠ .none := by rw [isUser]; simp
    obtain ⟨_,above,_⟩ := (good'.mirrors.pool.owned f).mp held
    have ram : RAM_END = 0x88000000 := rfl
    have names := ppn_new_leaf flags aligned (by omega)
    have lowBase := good'.mirrors.pool.low
    obtain ⟨valid,isU⟩ := user f
    refine ⟨f,?_,names,available_unused inv.good.mirrors.pool unused aligned above bound,
      refsOf_unused inv.good unused aligned (by omega) bound,?_,?_⟩
    · rw [memory,leafAt_eq good' _ isRoot',pageOf_page (by omega),entry,Option.filter_some,if_pos valid]
    · rw [memory,refsOf,good'.mirrors.pool.refs f held,one]
      rfl
    · intro o inside
      have page := congrFun acts.pages n
      rw [space_low (by omega),entry,pageAt_user valid isU,Eager.fillPages,if_pos ⟨low,high⟩] at page
      have bytes := congrFun (congrArg Page.bytes (Option.some.inj page)) ⟨o,inside⟩
      rw [zero,names] at bytes
      rw [memory]
      exact bytes
  · intro n j e d lowN highN lowJ highJ different foundN foundJ same
    rw [memory] at foundN foundJ
    have first := now lowN highN foundN
    have second := now lowJ highJ foundJ
    obtain ⟨x,entryX,frameX,_⟩ := grown.pages n lowN highN
    obtain ⟨y,entryY,frameY,_⟩ := grown.pages j lowJ highJ
    have ram : RAM_END = 0x88000000 := rfl
    obtain ⟨alignedX,boundX⟩ := frameX
    obtain ⟨alignedY,boundY⟩ := frameY
    rw [← first,← second,entryX,entryY,ppn_new_leaf flags alignedX (by omega),ppn_new_leaf flags alignedY (by omega)] at same
    exact different (grown.apart n j lowN highN lowJ highJ (by rw [entryX,entryY,same]))
  · intro i p va slot there outside
    rw [memory]
    exact leaves_same inv running awake good' acts.aside.roots grown slot there outside
  · refine bytes_same inv grown acts.aside (fun n outside => ?_) memory
    rw [acts.pages,Eager.fillPages,if_neg outside]

end

/-! ### The calls -/

section
variable {exact : Bool} {o : Origin} {k k' : Kernel} {g : Ledger} {me : Process} (inv : Inv exact o k g)
  (running : k.process_list k.current = some me) (awake : me.state = .Running)

include inv running awake

theorem sys_brk_grows {new_break r : Nat} (larger : me.heap_end < new_break) (run : (sys_brk new_break).run k = .ok r k') :
    BreakGrows me new_break r k k' := by
  have there : me.state ≠ .Gone := by rw [awake]; simp
  have isRoot := inv.link.root running there
  rcases sys_brk_grow inv.good running isRoot (inv.link.pool running there) larger with
    ⟨ran,_⟩ | ⟨inside,res,mm,g',acts,_,grown,_,ran⟩
  · rw [ran] at run
    cases run
    exact .inl ⟨rfl,untouched inv running awake inv.good (Grown.refl _ 0 0 g) (Acts.refl inv.good) rfl rfl⟩
  cases res with
  | false =>
    dsimp only at ran
    rw [ran] at run
    cases run
    exact .inl ⟨rfl,untouched inv running awake acts.good grown acts rfl rfl⟩
  | true =>
    dsimp only at ran
    rw [ran] at run
    cases run
    have limit : USER_HEAP_LIMIT = 0x3e000000 := rfl
    have few : pageUp new_break ≤ 2^19 := by
      unfold pageUp
      omega
    exact .inr ⟨rfl,rfl,extended inv running awake acts.good grown rfl few (userFlags_new true true false) acts rfl⟩

theorem sys_mmap_grows {addr len prot flags fd offset r : Nat} (bound : prot < 2^64)
    (run : (sys_mmap addr len prot flags fd offset).run k = .ok r k') : MappingGrows me len prot flags r k k' := by
  have there : me.state ≠ .Gone := by rw [awake]; simp
  have isRoot := inv.link.root running there
  have idle : Untouched me.page_table.root k k :=
    untouched inv running awake inv.good (Grown.refl _ 0 0 g) (Acts.refl inv.good) rfl rfl
  rcases sys_mmap_cases addr len prot flags fd offset k with
    ⟨_,refused,ran,_⟩ | ⟨whole,pte_flags,length,aligned,_,accepted,goes⟩
  · rw [ran] at run
    cases run
    exact .inl ⟨refused.imp_right .inl,idle⟩
  rw [goes] at run
  have rounded : whole = pageUp len*4096 := by
    unfold Eager.mmapLength checked_align_up checked_add at length
    obtain ⟨found,_⟩ := Option.filter_eq_some_iff.mp length
    obtain ⟨sum,added,rfl⟩ := Option.map_eq_some_iff.mp found
    split at added
    · cases added
      rfl
    · cases added
  cases chosen : choose_mmap_addr me.mmap_areas addr whole with
  | error p =>
    rw [mmap_anonymous_panics running chosen] at run
    cases run
  | ok choice =>
    rcases mmap_anonymous_cases inv.good running isRoot (inv.link.pool running there) bound aligned accepted chosen with
      ⟨ran,_⟩ | ⟨start,slot,res,mm,g',rfl,found,acts,_,grown,_,ran⟩
    · rw [ran] at run
      cases run
      exact .inl ⟨.inr (.inr rfl),idle⟩
    cases res with
    | false =>
      dsimp only at ran
      rw [ran] at run
      cases run
      exact .inl ⟨.inr (.inr rfl),untouched inv running awake acts.good grown acts rfl rfl⟩
    | true =>
      dsimp only at ran
      rw [ran] at run
      cases run
      have gap := Areas.choose_mmap_addr_gap chosen
      have start_aligned := gap.aligned
      have high := gap.high
      have limit : USER_MMAP_LIMIT = 0x3f000000 := rfl
      have user : UserFlags pte_flags := by
        unfold pte_flags_from_prot at accepted
        split at accepted
        · cases accepted
        split at accepted
        · cases accepted
        cases accepted
        exact userFlags_new _ _ _
      have stop : (r+whole)/4096 = r/4096+pageUp len := by omega
      rw [if_pos rfl,stop] at grown acts
      refine .inr ⟨slot,pte_flags,start_aligned,gap.low,by omega,accepted,by rw [rounded]; rfl,?_⟩
      exact extended inv running awake acts.good grown rfl (by omega) user acts rfl

end

/-- As long as waits were given good status pointers, a break that is asked to grow and a
    new mapping are all or nothing: on failure nothing is left of them but tables, on
    success exactly the pages of the range are new, in zeroed frames of their own. -/
theorem growing_all_or_nothing {cfg : Config} {k : Kernel} {me : Process} (reached : Reachable cfg WaitsWell k)
    (running : runner k = some me) (ctx : Context) :
    (∀ new_break r k', me.heap_end < new_break → (sys_brk new_break).run (entered ctx 8 0 k me) = .ok r k' →
      BreakGrows (stopped ctx 8 0 me) new_break r (entered ctx 8 0 k me) k') ∧
    ∀ addr len prot flags fd offset r k', prot < 2^64 →
      (sys_mmap addr len prot flags fd offset).run (entered ctx 8 0 k me) = .ok r k' →
      MappingGrows (stopped ctx 8 0 me) len prot flags r (entered ctx 8 0 k me) k' := by
  obtain ⟨_,_,_,_,g,_,_,user⟩ := reachable_user false (fun _ _ may => ⟨may,by simp⟩) reached
  obtain ⟨p,slot,awake⟩ := reachable_awake reached
  obtain rfl : p = me := Option.some.inj (slot.symm.trans running)
  obtain ⟨inv,_,now,_⟩ := entered_inv user slot awake ctx 8 0
  exact ⟨fun _ _ _ larger run => sys_brk_grows inv now awake larger run,fun _ _ _ _ _ _ _ _ bound run =>
    sys_mmap_grows inv now awake bound run⟩

/-- Init asks for one page of heap and gets it. -/
theorem growing_all_or_nothing_granted : ∃ k me k', Reachable (sample true) WaitsWell k ∧ runner k = some me ∧
    (sys_brk 0x21000).run (entered ⟨fun _ => 0,0,0⟩ 8 0 k me) = .ok 0x21000 k' ∧
    BreakGrows (stopped ⟨fun _ => 0,0,0⟩ 8 0 me) 0x21000 0x21000 (entered ⟨fun _ => 0,0,0⟩ 8 0 k me) k' ∧
    Extended me.page_table 32 33 (PTEFlags.new true true false true) (entered ⟨fun _ => 0,0,0⟩ 8 0 k me) k' := by
  obtain ⟨o,k,g,init,booted,stage,slot,awake,start,stop,_,initial⟩ := sample_stage
  have code : USER_CODE_BASE/4096 = 16 := rfl
  have stack : USER_STACK_PAGE/4096 = 258048 := rfl
  have device : devicePage = 65536 := rfl
  have reached : Reachable (sample true) WaitsWell k := .boot booted
  have current : k.current = 0 := congrArg Lifecycle.System.current stage.procs
  have running : runner k = some init := by rw [runner,current]; exact slot
  have old : pageUp init.heap_end = 32 := by rw [stop]; rfl
  have new : pageUp 0x21000 = 33 := rfl
  have few : cost 32 33 ≤ 3 := cost_page 32
  have absent : ∀ j, pageUp init.heap_end ≤ j → j < pageUp 0x21000 → space k.mm g init.page_table.root j = none ∧ j ≠ devicePage := by
    intro j low high
    rw [old] at low
    rw [new] at high
    refine ⟨?_,by omega⟩
    rw [← Option.not_isSome_iff_eq_none,initial.there j]
    omega
  obtain ⟨mm,_,_,_,run⟩ := brk_granted (n := 0) stage.user running awake (by rw [stop]; decide) (by decide) (by rw [start]; decide)
    absent (by rw [old,new]; have := stage.room; omega) ⟨fun _ => 0,0,0⟩
  have grows := (growing_all_or_nothing reached running ⟨fun _ => 0,0,0⟩).1 _ _ _ (by rw [stop]; decide) run
  refine ⟨k,init,_,reached,running,run,grows,?_⟩
  rcases grows with ⟨same,_⟩ | ⟨_,_,extended⟩
  · rw [show (stopped _ 8 0 init).heap_end = _ from stop] at same
    exact absurd same (by decide)
  · rw [show (stopped _ 8 0 init).heap_end = init.heap_end from rfl,old,new] at extended
    exact extended

end Unit00.Atomic
