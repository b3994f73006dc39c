import Unit00.Forking
import Unit00.Access
import Unit00.Steps

/-!
The invariant that ties the process table to memory: every process that is not
gone has a root and a kernel stack of its own, and every root and stack belongs
to such a process. It is kept by whatever leaves the processes alike, by fork
and by reaping.
-/
namespace Unit00.Invariant
open Unit00.Memory Unit00.Execution Unit00.Frame Unit00.Paging Unit00.Paging.PTEntry Unit00.Trees Unit00.Ownership
open Unit00.Mirror Unit00.Space Unit00.Pages Unit00.Ranges Unit00.Clearing Unit00.Forking Unit00.Access Unit00.Mmu
open Unit00.Task Unit00.Scheduler Unit00.Syscall Unit00.Machine Unit00.Lifecycle Unit00.Steps
open Unit00.Eager (Page Pages Image)

/-! ### Processes and their frames -/

/-- The frames of the processes of a table. -/
structure Link (t : Table) (g : Ledger) : Prop where
  root : ∀ {i p}, t i = some p → p.state ≠ .Gone → g.own p.page_table.root = .root
  pool : ∀ {i p}, t i = some p → p.state ≠ .Gone → p.page_table.frame_alloc = alloc_frame
  own_root : ∀ {i j p q}, t i = some p → t j = some q → p.state ≠ .Gone → q.state ≠ .Gone →
    p.page_table.root = q.page_table.root → i = j
  root_back : ∀ {r}, g.own r = .root → ∃ i p, t i = some p ∧ p.state ≠ .Gone ∧ p.page_table.root = r
  stack : ∀ {i p}, t i = some p → p.state ≠ .Gone → ∀ x,
    g.own x = .stack p.kernel_stack_frame ↔ ∃ n, n < KERNEL_STACK_PAGES ∧ x = p.kernel_stack_frame+n*PAGE_SIZE
  own_stack : ∀ {i j p q}, t i = some p → t j = some q → p.state ≠ .Gone → q.state ≠ .Gone →
    p.kernel_stack_frame = q.kernel_stack_frame → i = j
  stack_back : ∀ {x b}, g.own x = .stack b → ∃ i p, t i = some p ∧ p.state ≠ .Gone ∧ p.kernel_stack_frame = b
  sp : ∀ {i p}, t i = some p → p.state ≠ .Gone → p.kernel_sp = p.kernel_stack_frame+KERNEL_STACK_SIZE

/-- Two processes with the same frames, neither of them gone. -/
structure Twin (p q : Process) : Prop where
  there : p.state ≠ .Gone ∧ q.state ≠ .Gone
  page_table : q.page_table = p.page_table
  kernel_sp : q.kernel_sp = p.kernel_sp
  kernel_stack_frame : q.kernel_stack_frame = p.kernel_stack_frame

theorem Twin.refl {p : Process} (there : p.state ≠ .Gone) : Twin p p := ⟨⟨there,there⟩,rfl,rfl,rfl⟩

theorem Twin.trans {p q r : Process} (first : Twin p q) (second : Twin q r) : Twin p r :=
  ⟨⟨first.there.1,second.there.2⟩,second.page_table.trans first.page_table,second.kernel_sp.trans first.kernel_sp,
    second.kernel_stack_frame.trans first.kernel_stack_frame⟩

/-- Tables with the same processes in the same slots, the gone ones apart. -/
structure Alike (t t' : Table) : Prop where
  forth : ∀ {i p}, t i = some p → p.state ≠ .Gone → ∃ q, t' i = some q ∧ Twin p q
  back : ∀ {i q}, t' i = some q → q.state ≠ .Gone → ∃ p, t i = some p ∧ Twin p q

theorem Alike.refl (t : Table) : Alike t t :=
  ⟨fun slot there => ⟨_,slot,Twin.refl there⟩,fun slot there => ⟨_,slot,Twin.refl there⟩⟩

theorem Alike.trans {t t' t'' : Table} (first : Alike t t') (second : Alike t' t'') : Alike t t'' := by
  constructor
  · intro i p slot there
    obtain ⟨q,slotQ,twin⟩ := first.forth slot there
    obtain ⟨r,slotR,twin'⟩ := second.forth slotQ twin.there.2
    exact ⟨r,slotR,twin.trans twin'⟩
  · intro i r slot there
    obtain ⟨q,slotQ,twin'⟩ := second.back slot there
    obtain ⟨p,slotP,twin⟩ := first.back slotQ twin'.there.1
    exact ⟨p,slotP,twin.trans twin'⟩

theorem Link.alike {t t' : Table} {g : Ledger} (link : Link t g) (alike : Alike t t') : Link t' g := by
  refine ⟨?_,?_,?_,?_,?_,?_,?_,?_⟩
  · intro i q slot there
    obtain ⟨p,slotP,twin⟩ := alike.back slot there
    rw [twin.page_table]
    exact link.root slotP twin.there.1
  · intro i q slot there
    obtain ⟨p,slotP,twin⟩ := alike.back slot there
    rw [twin.page_table]
    exact link.pool slotP twin.there.1
  · intro i j q q' slot slot' there there' same
    obtain ⟨p,slotP,twin⟩ := alike.back slot there
    obtain ⟨p',slotP',twin'⟩ := alike.back slot' there'
    rw [twin.page_table,twin'.page_table] at same
    exact link.own_root slotP slotP' twin.there.1 twin'.there.1 same
  · intro r isRoot
    obtain ⟨i,p,slot,there,same⟩ := link.root_back isRoot
    obtain ⟨q,slotQ,twin⟩ := alike.forth slot there
    exact ⟨i,q,slotQ,twin.there.2,by rw [twin.page_table]; exact same⟩
  · intro i q slot there x
    obtain ⟨p,slotP,twin⟩ := alike.back slot there
    rw [twin.kernel_stack_frame]
    exact link.stack slotP twin.there.1 x
  · intro i j q q' slot slot' there there' same
    obtain ⟨p,slotP,twin⟩ := alike.back slot there
    obtain ⟨p',slotP',twin'⟩ := alike.back slot' there'
    rw [twin.kernel_stack_frame,twin'.kernel_stack_frame] at same
    exact link.own_stack slotP slotP' twin.there.1 twin'.there.1 same
  · intro x b here
    obtain ⟨i,p,slot,there,same⟩ := link.stack_back here
    obtain ⟨q,slotQ,twin⟩ := alike.forth slot there
    exact ⟨i,q,slotQ,twin.there.2,by rw [twin.kernel_stack_frame]; exact same⟩
  · intro i q slot there
    obtain ⟨p,slotP,twin⟩ := alike.back slot there
    rw [twin.kernel_sp,twin.kernel_stack_frame]
    exact link.sp slotP twin.there.1

/-- A ledger with the same roots and stacks. -/
theorem Link.same {t : Table} {g g' : Ledger} (link : Link t g) (roots : ∀ x, g'.own x = .root ↔ g.own x = .root)
    (stack : ∀ x b, g'.own x = .stack b ↔ g.own x = .stack b) : Link t g' := by
  refine ⟨fun slot there => (roots _).mpr (link.root slot there),link.pool,link.own_root,
    fun isRoot => link.root_back ((roots _).mp isRoot),?_,link.own_stack,fun here => link.stack_back ((stack _ _).mp here),link.sp⟩
  intro i p slot there x
  rw [stack]
  exact link.stack slot there x

/-- The new child of a fork. -/
theorem Link.fork {exact : Bool} {base r c s : Nat} {m m' : Mm} {t : Table} {g g' : Ledger} (link : Link t g)
    (forked : Forked exact base r c s m m' g g') (owned : ∀ x, g.own x ≠ .none → x < g.next) {idx : Fin MAX_PROCESSES}
    (kid : Process) (empty : ∀ p, t idx = some p → p.state = .Gone)
    (table : kid.page_table = { root := c, frame_alloc := alloc_frame }) (frame : kid.kernel_stack_frame = s)
    (sp : kid.kernel_sp = s+KERNEL_STACK_SIZE) (there : kid.state ≠ .Gone) : Link (Function.update t idx (some kid)) g' := by
  have fresh : g.own c ≠ .root := by rcases forked.fresh_root with h | h <;> rw [h] <;> simp
  have unused : ∀ x, g.own x ≠ .stack s := by
    intro x here
    obtain ⟨i,p,slot,present,same⟩ := link.stack_back here
    have bottom := (link.stack slot present p.kernel_stack_frame).mpr ⟨0,by decide,by omega⟩
    have := owned p.kernel_stack_frame (by rw [bottom]; simp)
    have := forked.fresh_stack
    omega
  have cases : ∀ {i p}, Function.update t idx (some kid) i = some p → (i = idx ∧ p = kid) ∨ (i ≠ idx ∧ t i = some p) := by
    intro i p slot
    by_cases same : i = idx
    · subst same
      rw [Function.update_self,Option.some.injEq] at slot
      exact .inl ⟨rfl,slot.symm⟩
    · rw [Function.update_of_ne same] at slot
      exact .inr ⟨same,slot⟩
  have keep : ∀ {i p}, t i = some p → p.state ≠ .Gone → Function.update t idx (some kid) i = some p := by
    intro i p slot present
    have other : i ≠ idx := by
      rintro rfl
      exact present (empty p slot)
    rw [Function.update_of_ne other]
    exact slot
  refine ⟨?_,?_,?_,?_,?_,?_,?_,?_⟩
  · intro i p slot present
    rcases cases slot with ⟨_,rfl⟩ | ⟨_,old⟩
    · rw [table]
      exact (forked.roots c).mpr (.inr rfl)
    · exact (forked.roots _).mpr (.inl (link.root old present))
  · intro i p slot present
    rcases cases slot with ⟨_,rfl⟩ | ⟨_,old⟩
    · rw [table]
    · exact link.pool old present
  · intro i j p q slot slot' present present' same
    rcases cases slot with ⟨hi,rfl⟩ | ⟨hi,old⟩ <;> rcases cases slot' with ⟨hj,rfl⟩ | ⟨hj,old'⟩
    · rw [hi,hj]
    · rw [table] at same
      exact absurd (link.root old' present') (by rw [← same]; exact fresh)
    · rw [table] at same
      exact absurd (link.root old present) (by rw [same]; exact fresh)
    · exact link.own_root old old' present present' same
  · intro x isRoot
    rcases (forked.roots x).mp isRoot with old | rfl
    · obtain ⟨i,p,slot,present,same⟩ := link.root_back old
      exact ⟨i,p,keep slot present,present,same⟩
    · exact ⟨idx,kid,Function.update_self .. ,there,by rw [table]⟩
  · intro i p slot present x
    rw [forked.stack]
    rcases cases slot with ⟨_,rfl⟩ | ⟨_,old⟩
    · rw [frame]
      constructor
      · rintro (h | ⟨_,h⟩)
        · exact absurd h (unused x)
        · exact h
      · exact fun h => .inr ⟨rfl,h⟩
    · rw [← link.stack old present x]
      constructor
      · rintro (h | ⟨same,_⟩)
        · exact h
        · have bottom := (link.stack old present p.kernel_stack_frame).mpr ⟨0,by decide,by omega⟩
          rw [same] at bottom
          exact absurd bottom (unused _)
      · exact .inl
  · intro i j p q slot slot' present present' same
    have other : ∀ {i p}, t i = some p → p.state ≠ .Gone → p.kernel_stack_frame ≠ s := by
      intro i p old present same
      have bottom := (link.stack old present p.kernel_stack_frame).mpr ⟨0,by decide,by omega⟩
      rw [same] at bottom
      exact unused _ bottom
    rcases cases slot with ⟨hi,rfl⟩ | ⟨hi,old⟩ <;> rcases cases slot' with ⟨hj,rfl⟩ | ⟨hj,old'⟩
    · rw [hi,hj]
    · exact absurd (same.symm.trans frame) (other old' present')
    · exact absurd (same.trans frame) (other old present)
    · exact link.own_stack old old' present present' same
  · intro x b here
    rcases (forked.stack x b).mp here with old | ⟨rfl,_⟩
    · obtain ⟨i,p,slot,present,same⟩ := link.stack_back old
      exact ⟨i,p,keep slot present,present,same⟩
    · exact ⟨idx,kid,Function.update_self .. ,there,frame⟩
  · intro i p slot present
    rcases cases slot with ⟨_,rfl⟩ | ⟨_,old⟩
    · rw [sp,frame]
    · exact link.sp old present

/-- A reaped child. -/
theorem Link.reap {t : Table} {g g' : Ledger} (link : Link t g) {idx : Fin MAX_PROCESSES} {kid : Process}
    (slot : t idx = some kid) (there : kid.state ≠ .Gone)
    (roots : ∀ x, g'.own x = .root ↔ g.own x = .root ∧ x ≠ kid.page_table.root)
    (stack : ∀ x b, g'.own x = .stack b ↔ g.own x = .stack b ∧ b ≠ kid.kernel_stack_frame) :
    Link (Function.update t idx (some { kid with state := .Gone })) g' := by
  have old : ∀ {i p}, Function.update t idx (some { kid with state := .Gone }) i = some p → p.state ≠ .Gone →
      i ≠ idx ∧ t i = some p := by
    intro i p found present
    by_cases same : i = idx
    · subst same
      rw [Function.update_self,Option.some.injEq] at found
      rw [← found] at present
      exact absurd rfl present
    · rw [Function.update_of_ne same] at found
      exact ⟨same,found⟩
  refine ⟨?_,?_,?_,?_,?_,?_,?_,?_⟩
  · intro i p found present
    obtain ⟨other,before⟩ := old found present
    exact (roots _).mpr ⟨link.root before present,fun same => other (link.own_root before slot present there same)⟩
  · intro i p found present
    exact link.pool (old found present).2 present
  · intro i j p q found found' present present' same
    exact link.own_root (old found present).2 (old found' present').2 present present' same
  · intro r isRoot
    obtain ⟨before,different⟩ := (roots r).mp isRoot
    obtain ⟨i,p,found,present,same⟩ := link.root_back before
    refine ⟨i,p,?_,present,same⟩
    rw [Function.update_of_ne]
    · exact found
    · rintro rfl
      rw [slot,Option.some.injEq] at found
      exact different (by rw [found]; exact same.symm)
  · intro i p found present x
    obtain ⟨other,before⟩ := old found present
    rw [stack,link.stack before present x]
    exact and_iff_left fun same => other (link.own_stack before slot present there same)
  · intro i j p q found found' present present' same
    exact link.own_stack (old found present).2 (old found' present').2 present present' same
  · intro x b here
    obtain ⟨before,different⟩ := (stack x b).mp here
    obtain ⟨i,p,found,present,same⟩ := link.stack_back before
    refine ⟨i,p,?_,present,same⟩
    rw [Function.update_of_ne]
    · exact found
    · rintro rfl
      rw [slot,Option.some.injEq] at found
      exact different (by rw [found]; exact same.symm)
  · intro i p found present
    exact link.sp (old found present).2 present

/-! ### The kernel half -/

/-- What the boot left: the bump pointer when it began, memory, its ledger and the root
    of init. -/
structure Origin where
  base : Nat
  mem : Mem
  ledger : Ledger
  root : Nat

/-- The kernel half is as the boot built it, in every page table. -/
structure Half (o : Origin) (m : Mm) (g : Ledger) : Prop where
  kernel : ∀ x, g.own x = .kernel ↔ o.ledger.own x = .kernel
  bytes : ∀ x i, o.ledger.own x = .kernel → i < 4096 → m.mem (x+i) = o.mem (x+i)
  tops : ∀ q v, g.own q = .root → 2 ≤ v → (g.tree q).l2 v = (o.ledger.tree o.root).l2 v
  upper : ∀ q n, g.own q = .root → 2^19 ≤ n → (g.tree q).leaf n = (o.ledger.tree o.root).leaf n

theorem Half.aside {o : Origin} {r : Nat} {m m' : Mm} {g g' : Ledger} (half : Half o m g) (aside : Aside r m m' g g') :
    Half o m' g' := by
  refine ⟨fun x => (aside.kernel x).trans (half.kernel x),?_,?_,?_⟩
  · intro x i here inside
    rw [aside.kernel_bytes x i ((half.kernel x).mpr here) inside,half.bytes x i here inside]
  · intro q v isRoot high
    have before := (aside.roots q).mp isRoot
    rw [aside.tops q v before high,half.tops q v before high]
  · intro q n isRoot high
    have before := (aside.roots q).mp isRoot
    rw [aside.upper q n before high,half.upper q n before high]

theorem Half.forked {o : Origin} {exact : Bool} {base r c s : Nat} {m m' : Mm} {g g' : Ledger} (half : Half o m g)
    (isRoot : g.own r = .root) (forked : Forked exact base r c s m m' g g') : Half o m' g' := by
  refine ⟨fun x => (forked.kernel x).trans (half.kernel x),?_,?_,?_⟩
  · intro x i here inside
    rw [forked.kernel_bytes x i ((half.kernel x).mpr here) inside,half.bytes x i here inside]
  · intro q v isRootQ high
    rcases (forked.roots q).mp isRootQ with before | rfl
    · rw [forked.tops q v before high,half.tops q v before high]
    · rw [forked.tops_child v high,half.tops r v isRoot high]
  · intro q n isRootQ high
    rcases (forked.roots q).mp isRootQ with before | rfl
    · rw [forked.upper q n before high,half.upper q n before high]
    · rw [forked.upper_child n high,half.upper r n isRoot high]

theorem Half.freed {o : Origin} {exact : Bool} {base r s : Nat} {m m' : Mm} {g g' : Ledger} (half : Half o m g)
    (pool : Pool base m g) (isRoot : g.own r = .root)
    (freeing : Freeing exact base m (retire g r) (Belongs g r s) m' g') : Half o m' g' := by
  have spared : ∀ {x : Nat}, g.own x = .kernel → ¬ Belongs g r s x := by
    rintro x here (h | ⟨i,h⟩ | ⟨v,h⟩ | rfl)
    · rw [here] at h; cases h
    · rw [here] at h; cases h
    · rw [here] at h; cases h
    · rw [here] at isRoot; cases isRoot
  have before : ∀ {q : Nat}, g'.own q = .root → g.own q = .root := fun {q} here =>
    ((freeing.left isRoot).1 q).mp here |>.1
  refine ⟨fun x => ?_,?_,?_,?_⟩
  · rw [← half.kernel x]
    constructor
    · intro here
      by_cases gone : Belongs g r s x
      · rw [(freeing.freed x gone).1] at here
        cases here
      · rw [(freeing.others x gone).1] at here
        exact retire_own (by simp) here
    · intro here
      rw [(freeing.others x (spared here)).1]
      show retired r x (g.own x) = .kernel
      rw [here]
      rfl
  · intro x i here inside
    have kernel := (half.kernel x).mpr here
    rw [freeing.change.byte (pool.managed (f := x) (by rw [kernel]; simp)).1 inside (spared kernel),half.bytes x i here inside]
  · intro q v here high
    rw [freeing.tree]
    exact half.tops q v (before here) high
  · intro q n here high
    rw [freeing.tree]
    exact half.upper q n (before here) high

/-- A write outside the kernel half. -/
theorem Half.write {o : Origin} {base : Nat} {m : Mm} {g : Ledger} (half : Half o m g) (pool : Pool base m g) {x : Nat}
    (other : g.own x ≠ .kernel) {mem : Mem} (change : Confined (· = x) m.mem mem) : Half o { m with mem := mem } g := by
  refine { half with bytes := fun y i here inside => ?_ }
  have kernel := (half.kernel y).mpr here
  rw [← half.bytes y i here inside]
  refine change.byte (pool.managed (f := y) (by rw [kernel]; simp)).1 inside ?_
  rintro rfl
  exact other kernel

/-! ### The invariant -/

/-- Memory and processes agree. In an exact run a zombie has given back its pages. -/
structure Inv (exact : Bool) (o : Origin) (k : Kernel) (g : Ledger) : Prop where
  good : Good exact o.base k.mm g
  link : Link k.process_list g
  zombies : exact = true → ∀ i p code, k.process_list i = some p → p.state = .Zombie code →
    space k.mm g p.page_table.root = fun _ => none
  half : Half o k.mm g
  heaps : ∀ i p, k.process_list i = some p → p.heap_start = USER_HEAP_START ∧ p.heap_end ≤ USER_HEAP_LIMIT

/-- The hart runs in the address space of the current process. -/
def AtHome (k : Kernel) : Prop := ∀ me, k.process_list k.current = some me → root_of k.hart.satp = me.page_table.root

/-- A user program runs: traps go to the kernel stack of the current process. -/
structure InUser (exact : Bool) (o : Origin) (k : Kernel) (g : Ledger) : Prop where
  inv : Inv exact o k g
  home : AtHome k
  sscratch : ∀ me, k.process_list k.current = some me → k.hart.sscratch = me.kernel_sp

theorem InUser.leaky {exact : Bool} {o : Origin} {k : Kernel} {g : Ledger} (user : InUser exact o k g) : InUser false o k g := by
  obtain ⟨inv,home,sscratch⟩ := user
  refine ⟨⟨inv.good.leaky,inv.link,?_,inv.half,inv.heaps⟩,home,sscratch⟩
  intro impossible
  cases impossible

section
variable {exact : Bool} {o : Origin} {k k' : Kernel} {g g' : Ledger} {me : Process}

/-- The process table after the kernel worked for the process that runs. -/
theorem Kept.alike (kept : Kept k k') (running : k.process_list k.current = some me) :
    Alike k.process_list k'.process_list := by
  obtain ⟨me',running',same⟩ := kept.mine me running
  constructor
  · intro i p slot there
    by_cases mine : i = k.current
    · subst mine
      rw [running,Option.some.injEq] at slot
      subst slot
      exact ⟨me',running',⟨there,by rw [same.state]; exact there⟩,same.page_table,same.kernel_sp,same.kernel_stack_frame⟩
    · exact ⟨p,by rw [kept.others i mine]; exact slot,Twin.refl there⟩
  · intro i q slot there
    by_cases mine : i = k.current
    · subst mine
      rw [running',Option.some.injEq] at slot
      subst slot
      exact ⟨me,running,⟨by rw [← same.state]; exact there,there⟩,same.page_table,same.kernel_sp,same.kernel_stack_frame⟩
    · rw [kept.others i mine] at slot
      exact ⟨q,slot,Twin.refl there⟩

/-- The kernel keeps the invariant while it works for the process that runs. -/
theorem Inv.act (inv : Inv exact o k g) (kept : Kept k k') (running : k.process_list k.current = some me)
    (awake : me.state = .Running) (good : Good exact o.base k'.mm g') (aside : Aside me.page_table.root k.mm k'.mm g g')
    (heap : ∀ me', k'.process_list k.current = some me' → me'.heap_end ≤ USER_HEAP_LIMIT) : Inv exact o k' g' := by
  obtain ⟨me',running',same⟩ := kept.mine me running
  refine ⟨good,(inv.link.alike (Kept.alike kept running)).same aside.roots aside.stack,?_,inv.half.aside aside,?_⟩
  rotate_left
  · intro i p slot
    by_cases mine : i = k.current
    · subst mine
      refine ⟨?_,heap p slot⟩
      rw [running',Option.some.injEq] at slot
      rw [← slot,same.heap_start]
      exact (inv.heaps _ me running).1
    · rw [kept.others i mine] at slot
      exact inv.heaps i p slot
  intro yes i p code slot dead
  by_cases mine : i = k.current
  · subst mine
    rw [running',Option.some.injEq] at slot
    rw [← slot,same.state,awake] at dead
    cases dead
  · rw [kept.others i mine] at slot
    have isRoot := inv.link.root slot (by rw [dead]; simp)
    rw [aside.spaces _ ?_ isRoot]
    · exact inv.zombies yes i p code slot dead
    · intro equal
      exact mine (inv.link.own_root slot running (by rw [dead]; simp) (by rw [awake]; simp) equal)

/-! ### Kernel stacks -/

/-- The page of a kernel stack that trap frames are in. -/
def framePage (p : Process) : Nat := p.kernel_stack_frame+7*4096

theorem Link.framePage {t : Table} (link : Link t g) {i : Fin MAX_PROCESSES} {p : Process} (slot : t i = some p)
    (there : p.state ≠ .Gone) : g.own (framePage p) = .stack p.kernel_stack_frame ∧
      p.kernel_sp-TrapFrame.SIZE = framePage p+3808 ∧ p.kernel_sp = framePage p+4096 := by
  have sp := link.sp slot there
  have size : KERNEL_STACK_SIZE = 32768 := rfl
  have frame : TrapFrame.SIZE = 288 := rfl
  refine ⟨(link.stack slot there _).mpr ⟨7,by decide,rfl⟩,?_,?_⟩
  · unfold Invariant.framePage
    omega
  · unfold Invariant.framePage
    omega

/-- No process sees what is written to a kernel stack. -/
theorem write_stack {base : Nat} {m : Mm} (good : Good exact base m g) {x b : Nat} (here : g.own x = .stack b) {mem : Mem}
    (change : Confined (· = x) m.mem mem) :
    Good exact base { m with mem := mem } g ∧ ∀ q, g.own q = .root → space { m with mem := mem } g q = space m g q := by
  constructor
  · refine ⟨good.mirrors.frame change ?_,good.sound,good.settled⟩
    rintro p rfl
    rw [here]
    exact ⟨by simp,rfl⟩
  · intro q isRoot
    funext n
    refine space_same isRoot rfl change fun e leaf => ?_
    exact not_mapped good.sound here (by simp) leaf

theorem Inv.write_stack (inv : Inv exact o k g) {x b : Nat} (here : g.own x = .stack b) {mem : Mem}
    (change : Confined (· = x) k.mm.mem mem) (memory : k'.mm = { k.mm with mem := mem })
    (table : k'.process_list = k.process_list) : Inv exact o k' g := by
  obtain ⟨good,spaces⟩ := Invariant.write_stack inv.good here change
  refine ⟨by rw [memory]; exact good,by rw [table]; exact inv.link,?_,
    by rw [memory]; exact inv.half.write inv.good.mirrors.pool (by rw [here]; simp) change,by rw [table]; exact inv.heaps⟩
  intro yes i p code slot dead
  rw [table] at slot
  rw [memory,spaces _ (inv.link.root slot (by rw [dead]; simp))]
  exact inv.zombies yes i p code slot dead

/-- The stack image of a trap frame is in one page. -/
theorem confined_words (mem : Mem) {p : Nat} (aligned : p%4096 = 0) (tf : TrapFrame) :
    Confined (· = p) mem (storeWords mem (p+3808) tf.words) := by
  intro a outside
  refine storeWords_off ?_
  have length : tf.words.length = 36 := by simp [TrapFrame.words]
  rw [length]
  omega

theorem words_reg (tf : TrapFrame) (i : Fin 32) : tf.words[i.val]? = some (tf.regs i) := by
  rw [TrapFrame.words,List.getElem?_append_left (by rw [List.length_ofFn]; exact i.isLt),List.getElem?_ofFn,dif_pos i.isLt]

theorem words_rest (tf : TrapFrame) (i : Nat) : tf.words[32+i]? = [tf.sstatus,tf.sepc,tf.scause,tf.stval][i]? := by
  rw [TrapFrame.words,List.getElem?_append_right (by rw [List.length_ofFn]; omega),List.length_ofFn,Nat.add_sub_cancel_left]

/-- A trap frame is read back as it was written. -/
theorem image_words (mem : Mem) (a : Nat) (tf : TrapFrame) : TrapFrame.image (storeWords mem a tf.words) a = tf := by
  have word : ∀ {i w}, tf.words[i]? = some w → load64 (storeWords mem a tf.words) (a+8*i) = w := load64_storeWords
  have regs : (fun i : Fin 32 => load64 (storeWords mem a tf.words) (a+8*i)) = tf.regs := by
    funext i
    exact word (words_reg tf i)
  have sstatus : load64 (storeWords mem a tf.words) (a+256) = tf.sstatus := word (i := 32) (words_rest tf 0)
  have sepc : load64 (storeWords mem a tf.words) (a+264) = tf.sepc := word (i := 33) (words_rest tf 1)
  have scause : load64 (storeWords mem a tf.words) (a+272) = tf.scause := word (i := 34) (words_rest tf 2)
  have stval : load64 (storeWords mem a tf.words) (a+280) = tf.stval := word (i := 35) (words_rest tf 3)
  unfold TrapFrame.image
  rw [regs,sstatus,sepc,scause,stval]

/-- After `trap_entry` the frame of the user program is where the kernel looks for it. -/
theorem enter (user : InUser exact o k g) (running : k.process_list k.current = some me) (awake : me.state = .Running)
    (ctx : Context) (scause stval : BitVec 64) :
    Inv exact o (trap_entry ctx scause stval k) g ∧ AtHome (trap_entry ctx scause stval k) ∧
      trapped (trap_entry ctx scause stval k) me = frame_of ctx scause stval ∧
      (∀ q, g.own q = .root → space (trap_entry ctx scause stval k).mm g q = space k.mm g q) := by
  have there : me.state ≠ .Gone := by rw [awake]; simp
  obtain ⟨owner,place,_⟩ := user.inv.link.framePage running there
  have aligned := (user.inv.good.mirrors.pool.managed (f := framePage me) (by rw [owner]; simp)).1
  have at_stack : k.hart.sscratch-TrapFrame.SIZE = framePage me+3808 := by rw [user.sscratch me running,place]
  have change : Confined (· = framePage me) k.mm.mem
      (storeWords k.mm.mem (k.hart.sscratch-TrapFrame.SIZE) (frame_of ctx scause stval).words) := by
    rw [at_stack]
    exact confined_words k.mm.mem aligned _
  refine ⟨user.inv.write_stack owner change rfl rfl,user.home,?_,(Invariant.write_stack user.inv.good owner change).2⟩
  unfold trapped trap_entry
  rw [at_stack,place]
  exact image_words _ _ _

end

end Unit00.Invariant
