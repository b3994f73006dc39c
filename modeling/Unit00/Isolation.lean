import Unit00.Processes

/-!
What copy-on-write fork guarantees. The machine refines a system in which fork
copies every page at once; nobody writes to a frame that somebody else maps;
every frame is accounted for; and the kernel half of every address space is the
one that the boot built.
-/
namespace Unit00.Isolation
open Unit00.Memory Unit00.Execution Unit00.Frame Unit00.Paging Unit00.Paging.PTEntry Unit00.Trees Unit00.Ownership
open Unit00.Mirror Unit00.Space Unit00.Pages Unit00.Ranges Unit00.Clearing Unit00.Forking Unit00.Access Unit00.Mmu
open Unit00.Task Unit00.Scheduler Unit00.Syscall Unit00.Machine Unit00.Lifecycle Unit00.Steps Unit00.Invariant
open Unit00.Services Unit00.Traps Unit00.View Unit00.Boot Unit00.Runs Unit00.Stages Unit00.Processes
open Unit00.Progress
open Unit00.Eager (Page Pages Image World)

/-! ### Refinement -/

/-- Events of a run that an eager fork can follow: no wait with a bad status pointer, no fork short of frames. -/
def Careful (k : Kernel) (e : Event) : Prop := WaitsWell k e ∧ ForksWell k e

theorem offset_lt (va : Nat) : va%4096 < 4096 := Nat.mod_lt _ (by decide)

/-- A byte of a process of the reference system. -/
def byteIn (w : World) (i : Fin MAX_PROCESSES) (va : Nat) : Option (BitVec 8) :=
  ((w.image i).pages (pageOf va)).map fun p => p.bytes ⟨va%4096,offset_lt va⟩

theorem byteOf_pages {exact : Bool} {base : Nat} {m : Mm} {g : Ledger} (good : Good exact base m g) (pt : PageTable)
    (isRoot : g.own pt.root = .root) (va : Nat) :
    byteOf m pt va = (pagesOf m pt (pageOf va)).map fun p => p.bytes ⟨va%4096,Nat.mod_lt _ (by decide)⟩ := by
  rw [byteOf_eq good pt isRoot,pagesOf_eq good pt isRoot]

/-- Copy-on-write fork refines eager fork: after every run there is a run of the reference system with the same actions
    and the same processes in which each live process has the same address space, byte by byte, and no event of one
    process changes a byte of another. -/
theorem cow_fork_refines_eager_fork {cfg : Config} {history : List (Kernel × Event)} {k : Kernel}
    (run : Run cfg Careful history k) :
    (∃ k0 w, boot cfg = .user k0 ∧ Follow (worldOf k0) (actions history) w ∧ w.procs = procs k ∧
      ∀ i p, k.process_list i = some p → IsLive p → w.image i = imageAt k.mm p ∧
        ∀ va, byteOf k.mm p.page_table va = byteIn w i va) ∧
    ∀ e k', Careful k e → step e k = .user k' → ∀ i p, i ≠ k.current → k.process_list i = some p → IsLive p →
      ∃ p', k'.process_list i = some p' ∧ p'.page_table = p.page_table ∧
        ∀ va, byteOf k'.mm p'.page_table va = byteOf k.mm p.page_table va := by
  obtain ⟨k0,w,booted,follow,o,g,user,agrees⟩ := run_follows (fun _ _ may => may) run
  constructor
  · refine ⟨k0,w,booted,follow,agrees.procs,fun i p slot live => ?_⟩
    have isRoot := user.inv.link.root slot (live_there live)
    have image : w.image i = imageAt k.mm p := by
      rw [agrees.images i p slot live,imageAt_eq user.inv slot (live_there live)]
    refine ⟨image,fun va => ?_⟩
    rw [byteIn,image,byteOf_pages user.inv.good _ isRoot]
    rfl
  · intro e k' careful next i p other slot live
    obtain ⟨me,running,awake⟩ := reachable_awake run.reachable
    obtain ⟨g',after,_⟩ := step_user user running awake careful.1 (by simp) next
    obtain ⟨p',slot',kin,same⟩ := step_bystander user running awake careful.1 (by simp) next other slot live
    have there : p.state ≠ .Gone := live_there live
    have isRoot' := after.inv.link.root slot' (mt kin.gone.mp there)
    refine ⟨p',slot',kin_page_table kin,fun va => ?_⟩
    rw [byteOf_pages after.inv.good _ isRoot',byteOf_pages user.inv.good _ (user.inv.link.root slot there),
      kin_page_table kin,same]

/-- Init has forked and stored to its heap since: the eager system gives both processes the same bytes. -/
theorem cow_fork_refines_after_store : ∃ history k init child k0 w, Run (sample true) Careful history k ∧ Wrote k init child ∧
    history.map Prod.snd =
      [heapStore,heapStore,callEvent 220 [],callEvent 222 [0,0x1000,3,0x22],callEvent 214 [0x21000]] ∧
    boot (sample true) = .user k0 ∧ Follow (worldOf k0) (actions history) w ∧
    (∀ va, byteOf k.mm init.page_table va = byteIn w 0 va) ∧ (∀ va, byteOf k.mm child.page_table va = byteIn w 1 va) ∧
    byteIn w 0 0x20000 = some 7 ∧ byteIn w 1 0x20000 = some 0 := by
  obtain ⟨history,k,init,child,run,events,wrote⟩ := sample_wrote
  have careful : Run (sample true) Careful history k := run_mono (fun _ _ plain => ⟨plain.waits,plain.forks⟩) run
  obtain ⟨⟨k0,w,booted,follow,_,same⟩,_⟩ := cow_fork_refines_eager_fork careful
  have mine := (same 0 init wrote.slot wrote.lives.1).2
  have theirs := (same 1 child wrote.slotC wrote.lives.2).2
  exact ⟨history,k,init,child,k0,w,careful,wrote,events,booted,follow,mine,theirs,(mine _).symm.trans wrote.bytes.1,
    (theirs _).symm.trans wrote.bytes.2⟩

/-! ### Sharing -/

/-- A frame of the kernel stack of a process. -/
def StackFrame (p : Process) (f : Nat) : Prop := ∃ i, i < KERNEL_STACK_PAGES ∧ f = p.kernel_stack_frame+i*PAGE_SIZE

/-- The frames on the free list. -/
def freeList (m : Mm) : List Nat := cells m.mem (RAM_SIZE/4096) m.free_list_head

section
variable {exact : Bool} {o : Origin} {k : Kernel} {g : Ledger} {i : Fin MAX_PROCESSES} {p : Process}

theorem table_owner (inv : Inv exact o k g) (slot : k.process_list i = some p) (there : p.state ≠ .Gone) {f : Nat}
    (table : LowerTable k.mm.mem p.page_table.root f ∨ UpperTable k.mm.mem p.page_table.root f) :
    (g.own f).structural = true := by
  have isRoot := inv.link.root slot there
  rcases table with low | high
  · rcases (lowerTable_own inv.good.mirrors isRoot).mp low with rfl | ⟨v,here⟩ | ⟨j,here⟩
    · rw [isRoot]; rfl
    · rw [here]; rfl
    · rw [here]; rfl
  · rw [upperTable_own inv.good.mirrors isRoot high]; rfl

theorem stack_owner (inv : Inv exact o k g) (slot : k.process_list i = some p) (there : p.state ≠ .Gone) {f : Nat} :
    StackFrame p f ↔ g.own f = .stack p.kernel_stack_frame := (inv.link.stack slot there f).symm

end

/-- No frame that a user leaf maps with write access is mapped by another user leaf, and no frame that a user leaf maps
    is free, unallocated, part of the kernel image, a page table or a kernel stack. -/
structure Separate (cfg : Config) (k : Kernel) : Prop where
  alone : ∀ i j p q va vb e d, k.process_list i = some p → p.state ≠ .Gone → k.process_list j = some q → q.state ≠ .Gone →
    userLeaf k.mm p.page_table va = some e → userLeaf k.mm q.page_table vb = some d → is_w e = true →
    ppn_to_addr e = ppn_to_addr d → i = j ∧ pageOf va = pageOf vb
  live : ∀ i p va e, k.process_list i = some p → p.state ≠ .Gone → userLeaf k.mm p.page_table va = some e →
    ppn_to_addr e ∉ freeList k.mm ∧ ppn_to_addr e < k.mm.next_frame ∧ bootBase cfg ≤ ppn_to_addr e ∧
    ∀ j q, k.process_list j = some q → q.state ≠ .Gone → ¬ LowerTable k.mm.mem q.page_table.root (ppn_to_addr e) ∧
      ¬ UpperTable k.mm.mem q.page_table.root (ppn_to_addr e) ∧ ¬ StackFrame q (ppn_to_addr e)

/-- The mappings are separate in every state that good status pointers reach, whatever fails on the way. -/
theorem no_writable_sharing {cfg : Config} {k : Kernel} (reached : Reachable cfg WaitsWell k) : Separate cfg k := by
  obtain ⟨r,s,m,g0,g,_,_,user⟩ := reachable_user false (fun _ _ waits => ⟨waits,by simp⟩) reached
  have inv := user.inv
  have leaves : ∀ {i p va e}, k.process_list i = some p → p.state ≠ .Gone →
      (userLeaf k.mm p.page_table va = some e → UserLeaf g p.page_table.root (pageOf va) e) :=
    fun slot there => (userLeaf_iff inv.good _ (inv.link.root slot there)).mp
  constructor
  · intro i j p q va vb e d slotP thereP slotQ thereQ foundP foundQ writable same
    have leafP := leaves slotP thereP foundP
    have leafQ := leaves slotQ thereQ foundQ
    have root := inv.good.sound.alone leafP leafQ same writable
    exact ⟨inv.link.own_root slotP slotQ thereP thereQ root.symm,inv.good.sound.page leafP leafQ same⟩
  · intro i p va e slot there found
    have isUser := inv.good.sound.user (leaves slot there found)
    have held : g.own (ppn_to_addr e) ≠ .none := by rw [isUser]; simp
    have pool := inv.good.mirrors.pool
    obtain ⟨_,low,high⟩ := (pool.owned _).mp held
    refine ⟨?_,by rw [pool.next]; exact high,low,?_⟩
    · rw [freeList,cells_free pool,pool.free,isUser]
      simp
    · intro j q slotQ thereQ
      refine ⟨fun table => ?_,fun table => ?_,fun stack => ?_⟩
      · have := table_owner inv slotQ thereQ (.inl table)
        rw [isUser] at this
        cases this
      · have := table_owner inv slotQ thereQ (.inr table)
        rw [isUser] at this
        cases this
      · have := (stack_owner inv slotQ thereQ).mp stack
        rw [isUser] at this
        cases this

theorem no_writable_sharing_after_store : ∃ k init child, Reachable (sample true) WaitsWell k ∧ Wrote k init child ∧
    Separate (sample true) k := by
  obtain ⟨_,k,init,child,run,_,wrote⟩ := sample_wrote
  have reached := (plain_waits run).reachable
  exact ⟨k,init,child,reached,wrote,no_writable_sharing reached⟩

/-! ### Accounting -/

/-- What a frame is used for, and by which process. -/
inductive FrameClass
  | user
  | table (i : Fin MAX_PROCESSES)
  | kernel
  | stack (i : Fin MAX_PROCESSES)
  | free
  deriving DecidableEq

/-- The user leaves, by process and page, that map a frame. -/
def mappings (k : Kernel) (f : Nat) : Set (Fin MAX_PROCESSES × Nat) :=
  { x | ∃ p e, k.process_list x.1 = some p ∧ p.state ≠ .Gone ∧ x.2 < 2^27 ∧
    userLeaf k.mm p.page_table (x.2*4096) = some e ∧ ppn_to_addr e = f }

/-- The machine `k0` is the one that the boot left. -/
def InClass (k0 k : Kernel) (f : Nat) : FrameClass → Prop
  | .user => 1 ≤ (mappings k f).ncard ∧ (refsOf k.mm f).toNat = (mappings k f).ncard
  | .table i => refsOf k.mm f = 1 ∧
      ∃ p, k.process_list i = some p ∧ p.state ≠ .Gone ∧ LowerTable k.mm.mem p.page_table.root f
  | .kernel => refsOf k.mm f = 1 ∧ ∃ init, k0.process_list 0 = some init ∧ UpperTable k0.mm.mem init.page_table.root f
  | .stack i => refsOf k.mm f = 1 ∧ ∃ p, k.process_list i = some p ∧ p.state ≠ .Gone ∧ StackFrame p f
  | .free => refsOf k.mm f = 0 ∧ (freeList k.mm).count f = 1

/-- The process maps the frame, or has it as a page table or as a part of its kernel stack. -/
def Uses (m : Mm) (p : Process) (f : Nat) : Prop :=
  (∃ va e, userLeaf m p.page_table va = some e ∧ ppn_to_addr e = f) ∨ LowerTable m.mem p.page_table.root f ∨ StackFrame p f

/-- Every frame that was ever handed out has one use and the count of it: what nobody uses is on the free list, once. -/
structure Accounted (cfg : Config) (k0 k : Kernel) : Prop where
  one : ∀ f, f%4096 = 0 → bootBase cfg ≤ f → f < k.mm.next_frame → ∃! c, InClass k0 k f c
  returned : ∀ f, f%4096 = 0 → bootBase cfg ≤ f → f < k.mm.next_frame →
    (∀ i p, k.process_list i = some p → p.state ≠ .Gone → ¬ Uses k.mm p f) → ¬ InClass k0 k f .kernel →
    refsOf k.mm f = 0 ∧ (freeList k.mm).count f = 1
  kept : ∀ i p f, k.process_list i = some p → p.state ≠ .Gone → Uses k.mm p f → f ∉ freeList k.mm

/-- The tables of the kernel half are those of the boot. -/
theorem launch_kernel {exact : Bool} {cfg : Config} {r s : Nat} {m : Mm} {g : Ledger} (launch : Launch exact cfg r s m g) (x : Nat) :
    g.own x = .kernel ↔ UpperTable (launched cfg r s m).mm.mem r x := by
  have isRoot := launch.booted.root
  constructor
  · intro kernel
    refine (upperTable_same launch.booted.good.mirrors launch.user.inv.good.mirrors isRoot isRoot (fun _ _ => rfl) ?_).mpr
      (launch.booted.halves x kernel)
    intro y i here inside
    exact launched_bytes launch.booted (by rw [here]; simp) inside
  · exact upperTable_own launch.user.inv.good.mirrors isRoot

section
variable {exact : Bool} {o : Origin} {k : Kernel} {g : Ledger}

theorem mappings_ncard (inv : Inv exact o k g) (f : Nat) : (mappings k f).ncard = (mappers g f).ncard := by
  have image : (fun x : Fin MAX_PROCESSES × Nat => ((k.process_list x.1).elim 0 (·.page_table.root),x.2)) '' mappings k f =
      mappers g f := by
    ext ⟨q,n⟩
    constructor
    · rintro ⟨⟨i,n'⟩,⟨p,e,slot,there,inside,found,same⟩,equal⟩
      simp only [slot,Option.elim_some,Prod.mk.injEq] at equal
      obtain ⟨rfl,rfl⟩ := equal
      exact ⟨e,(userLeaf_page inv.good _ (inv.link.root slot there) inside).mp found,same⟩
    · rintro ⟨e,leaf,same⟩
      obtain ⟨i,p,slot,there,rfl⟩ := inv.link.root_back leaf.root
      refine ⟨(i,n),⟨p,e,slot,there,leaf.inside,(userLeaf_page inv.good _ leaf.root leaf.inside).mpr leaf,same⟩,?_⟩
      simp [slot]
  rw [← image]
  refine (Set.InjOn.ncard_image ?_).symm
  rintro ⟨i,n⟩ ⟨p,_,slotP,thereP,_⟩ ⟨j,n'⟩ ⟨q,_,slotQ,thereQ,_⟩ equal
  dsimp only at slotP slotQ equal
  rw [slotP,slotQ] at equal
  simp only [Option.elim_some,Prod.mk.injEq] at equal
  rw [inv.link.own_root slotP slotQ thereP thereQ equal.1,equal.2]

/-- The owner that a class of frames has in the ledger. -/
def Owned (k : Kernel) (g : Ledger) (f : Nat) : FrameClass → Prop
  | .user => g.own f = .user
  | .table i => ∃ p, k.process_list i = some p ∧ p.state ≠ .Gone ∧
      (f = p.page_table.root ∨ (∃ v, g.own f = .l2 p.page_table.root v) ∨ ∃ j, g.own f = .l1 p.page_table.root j)
  | .kernel => g.own f = .kernel
  | .stack i => ∃ p, k.process_list i = some p ∧ p.state ≠ .Gone ∧ g.own f = .stack p.kernel_stack_frame
  | .free => g.own f = .free

/-- The kind of use of an owner and of a class. -/
def ownerKind : Owner → Nat
  | .user => 1
  | .root => 2
  | .l2 _ _ => 2
  | .l1 _ _ => 2
  | .kernel => 3
  | .stack _ => 4
  | .free => 5
  | .none => 0
  | .temp => 0

def classKind : FrameClass → Nat
  | .user => 1
  | .table _ => 2
  | .kernel => 3
  | .stack _ => 4
  | .free => 5

theorem owned_kind (inv : Inv exact o k g) {f : Nat} {c : FrameClass} (owned : Owned k g f c) :
    ownerKind (g.own f) = classKind c := by
  cases c with
  | user => rw [show g.own f = .user from owned]; rfl
  | kernel => rw [show g.own f = .kernel from owned]; rfl
  | free => rw [show g.own f = .free from owned]; rfl
  | stack i =>
    obtain ⟨p,_,_,here⟩ := owned
    rw [here]; rfl
  | table i =>
    obtain ⟨p,slot,there,rfl | ⟨v,here⟩ | ⟨j,here⟩⟩ := owned
    · rw [inv.link.root slot there]; rfl
    · rw [here]; rfl
    · rw [here]; rfl

theorem owned_table_unique (inv : Inv exact o k g) {f : Nat} {i j : Fin MAX_PROCESSES} (first : Owned k g f (.table i))
    (second : Owned k g f (.table j)) : i = j := by
  obtain ⟨p,slotP,thereP,hereP⟩ := first
  obtain ⟨q,slotQ,thereQ,hereQ⟩ := second
  have rootP := inv.link.root slotP thereP
  have rootQ := inv.link.root slotQ thereQ
  refine inv.link.own_root slotP slotQ thereP thereQ ?_
  rcases hereP with rfl | ⟨v,hereP⟩ | ⟨a,hereP⟩ <;> rcases hereQ with same | ⟨w,hereQ⟩ | ⟨b,hereQ⟩
  · exact same
  · rw [rootP] at hereQ; cases hereQ
  · rw [rootP] at hereQ; cases hereQ
  · rw [same,rootQ] at hereP; cases hereP
  · rw [hereP] at hereQ; injection hereQ
  · rw [hereP] at hereQ; cases hereQ
  · rw [same,rootQ] at hereP; cases hereP
  · rw [hereP] at hereQ; cases hereQ
  · rw [hereP] at hereQ; injection hereQ

theorem owned_unique (inv : Inv exact o k g) {f : Nat} {c d : FrameClass} (first : Owned k g f c) (second : Owned k g f d) : c = d := by
  have kinds : classKind c = classKind d := (owned_kind inv first).symm.trans (owned_kind inv second)
  cases c <;> cases d <;> (try rfl) <;> (try (simp only [classKind] at kinds; omega))
  · rw [owned_table_unique inv first second]
  · obtain ⟨p,slotP,thereP,hereP⟩ := first
    obtain ⟨q,slotQ,thereQ,hereQ⟩ := second
    rw [hereP] at hereQ
    injection hereQ with same
    rw [inv.link.own_stack slotP slotQ thereP thereQ same]

/-- A frame in use has a class. -/
theorem owned_class (inv : Inv exact o k g) {f : Nat} (held : g.own f ≠ .none) : ∃ c, Owned k g f c := by
  cases here : g.own f with
  | none => exact absurd here held
  | temp => exact absurd here (inv.good.settled f)
  | user => exact ⟨.user,here⟩
  | free => exact ⟨.free,here⟩
  | kernel => exact ⟨.kernel,here⟩
  | root =>
    obtain ⟨i,p,slot,there,same⟩ := inv.link.root_back here
    exact ⟨.table i,p,slot,there,.inl same.symm⟩
  | l2 r v =>
    obtain ⟨i,p,slot,there,rfl⟩ := inv.link.root_back (inv.good.mirrors.tables.l2_back f r v here).1
    exact ⟨.table i,p,slot,there,.inr (.inl ⟨v,here⟩)⟩
  | l1 r j =>
    obtain ⟨i,p,slot,there,rfl⟩ := inv.link.root_back (inv.good.mirrors.tables.l1_back f r j here).1
    exact ⟨.table i,p,slot,there,.inr (.inr ⟨j,here⟩)⟩
  | stack b =>
    obtain ⟨i,p,slot,there,rfl⟩ := inv.link.stack_back here
    exact ⟨.stack i,p,slot,there,here⟩

end

section
variable {o : Origin} {k0 k : Kernel} {g : Ledger} (inv : Inv true o k g) {f : Nat}
  (kernel : g.own f = .kernel ↔ ∃ init, k0.process_list 0 = some init ∧ UpperTable k0.mm.mem init.page_table.root f)

include inv

theorem refs_eq (held : g.own f ≠ .none) : refsOf k.mm f = BitVec.ofNat 32 (g.refs f) := inv.good.mirrors.pool.refs f held

theorem refs_other (held : g.own f ≠ .none) (other : g.own f ≠ .user) (used : g.own f ≠ .free) : refsOf k.mm f = 1 := by
  rw [refs_eq inv held,inv.good.sound.others f other held,if_neg used]
  rfl

include kernel

/-- With exact counts the classes are what the ledger says. -/
theorem inClass_iff (held : g.own f ≠ .none) (c : FrameClass) : InClass k0 k f c ↔ Owned k g f c := by
  have pool := inv.good.mirrors.pool
  cases c with
  | user =>
    simp only [InClass,Owned,mappings_ncard inv]
    constructor
    · rintro ⟨some_leaf,_⟩
      obtain ⟨⟨q,n⟩,e,leaf,same⟩ := Set.nonempty_of_ncard_ne_zero (s := mappers g f) (by omega)
      rw [← same]
      exact inv.good.sound.user leaf
    · intro isUser
      have exactly := inv.good.sound.exactly rfl f isUser
      have positive := inv.good.sound.positive f isUser
      have small := pool.small f held
      rw [refs_eq inv held,BitVec.toNat_ofNat,Nat.mod_eq_of_lt small]
      simp only [nothing] at exactly
      omega
  | table i =>
    constructor
    · rintro ⟨_,p,slot,there,table⟩
      exact ⟨p,slot,there,(lowerTable_own inv.good.mirrors (inv.link.root slot there)).mp table⟩
    · intro owned
      have kind := owned_kind inv owned
      obtain ⟨p,slot,there,here⟩ := owned
      refine ⟨refs_other inv held ?_ ?_,p,slot,there,(lowerTable_own inv.good.mirrors (inv.link.root slot there)).mpr here⟩
      · intro isUser
        rw [isUser] at kind
        cases kind
      · intro isFree
        rw [isFree] at kind
        cases kind
  | kernel =>
    constructor
    · rintro ⟨_,table⟩
      exact kernel.mpr table
    · intro here
      exact ⟨refs_other inv held (by rw [show g.own f = .kernel from here]; simp) (by rw [show g.own f = .kernel from here]; simp),
        kernel.mp here⟩
  | stack i =>
    constructor
    · rintro ⟨_,p,slot,there,frame⟩
      exact ⟨p,slot,there,(stack_owner inv slot there).mp frame⟩
    · rintro ⟨p,slot,there,here⟩
      exact ⟨refs_other inv held (by rw [here]; simp) (by rw [here]; simp),p,slot,there,(stack_owner inv slot there).mpr here⟩
  | free =>
    simp only [InClass,Owned,freeList,cells_free pool]
    constructor
    · rintro ⟨_,once⟩
      exact (pool.free f).mp (List.count_pos_iff.mp (by omega))
    · intro isFree
      refine ⟨?_,List.count_eq_one_of_mem pool.nodup ((pool.free f).mpr isFree)⟩
      rw [refs_eq inv held,inv.good.sound.others f (by rw [isFree]; simp) held,if_pos isFree]
      rfl

end

/-- Events of a run in which every process ends through exit and no fork is short of frames. -/
def Orderly (k : Kernel) (e : Event) : Prop := WaitsWell k e ∧ Clean k e

/-- Every frame is accounted for in every state that orderly events reach. -/
theorem frame_accounting {cfg : Config} {k : Kernel} (reached : Reachable cfg Orderly k) :
    ∃ k0, boot cfg = .user k0 ∧ Accounted cfg k0 k := by
  obtain ⟨r,s,m,g0,g,booted,launch,user⟩ := reachable_user true (fun _ _ may => ⟨may.1,fun _ => may.2⟩) reached
  have inv := user.inv
  have pool := inv.good.mirrors.pool
  have kernel : ∀ f, g.own f = .kernel ↔ ∃ init, (launched cfg r s m).process_list 0 = some init ∧
      UpperTable (launched cfg r s m).mm.mem init.page_table.root f := by
    intro f
    rw [inv.half.kernel f]
    refine (launch_kernel launch f).trans ⟨fun table => ⟨initProcess r s,launched_init cfg r s m,table⟩,?_⟩
    rintro ⟨init,slot,table⟩
    rw [(launched_only slot).2] at table
    exact table
  have held : ∀ {f}, f%4096 = 0 → bootBase cfg ≤ f → f < k.mm.next_frame → g.own f ≠ .none := by
    intro f aligned low high
    rw [pool.next] at high
    exact (pool.owned f).mpr ⟨aligned,low,high⟩
  have uses : ∀ {i p f}, k.process_list i = some p → p.state ≠ .Gone →
      (Uses k.mm p f ↔ (∃ n e, UserLeaf g p.page_table.root n e ∧ ppn_to_addr e = f) ∨ Owned k g f (.table i) ∨
        Owned k g f (.stack i)) := by
    intro i p f slot there
    have isRoot := inv.link.root slot there
    unfold Uses Owned
    refine or_congr ?_ (or_congr ?_ ?_)
    · constructor
      · rintro ⟨va,e,found,same⟩
        exact ⟨pageOf va,e,(userLeaf_iff inv.good _ isRoot).mp found,same⟩
      · rintro ⟨n,e,leaf,same⟩
        exact ⟨n*4096,e,(userLeaf_page inv.good _ isRoot leaf.inside).mpr leaf,same⟩
    · rw [lowerTable_own inv.good.mirrors isRoot]
      simp only [slot,Option.some.injEq,exists_eq_left',there,ne_eq,not_false_eq_true,true_and]
    · rw [stack_owner inv slot there]
      simp only [slot,Option.some.injEq,exists_eq_left',there,ne_eq,not_false_eq_true,true_and]
  refine ⟨_,booted,⟨?_,?_,?_⟩⟩
  · intro f aligned low high
    have owned := held aligned low high
    obtain ⟨c,here⟩ := owned_class inv owned
    refine ⟨c,(inClass_iff inv (kernel f) owned c).mpr here,fun d there => ?_⟩
    exact owned_unique inv ((inClass_iff inv (kernel f) owned d).mp there) here
  · intro f aligned low high unused notKernel
    have owned := held aligned low high
    obtain ⟨c,here⟩ := owned_class inv owned
    have isFree : Owned k g f .free := by
      cases c with
      | free => exact here
      | kernel => exact absurd ((inClass_iff inv (kernel f) owned .kernel).mpr here) notKernel
      | table i =>
        have ⟨p,slot,there,_⟩ := here
        exact absurd ((uses slot there).mpr (.inr (.inl here))) (unused i p slot there)
      | stack i =>
        have ⟨p,slot,there,_⟩ := here
        exact absurd ((uses slot there).mpr (.inr (.inr here))) (unused i p slot there)
      | user =>
        have exactly := inv.good.sound.exactly rfl f here
        have positive := inv.good.sound.positive f here
        simp only [nothing] at exactly
        obtain ⟨⟨q,n⟩,e,leaf,same⟩ := Set.nonempty_of_ncard_ne_zero (s := mappers g f) (by omega)
        obtain ⟨i,p,slot,there,rfl⟩ := inv.link.root_back leaf.root
        exact absurd ((uses slot there).mpr (.inl ⟨n,e,leaf,same⟩)) (unused i p slot there)
    exact (inClass_iff inv (kernel f) owned .free).mpr isFree
  · intro i p f slot there used listed
    rw [freeList,cells_free pool] at listed
    have isFree : Owned k g f .free := (pool.free f).mp listed
    rcases (uses slot there).mp used with ⟨n,e,leaf,rfl⟩ | table | stack
    · have isUser := inv.good.sound.user leaf
      rw [show g.own (ppn_to_addr e) = .free from isFree] at isUser
      cases isUser
    · cases owned_unique inv isFree table
    · cases owned_unique inv isFree stack

theorem frame_accounting_after_store : ∃ k0 k init child, Reachable (sample true) Orderly k ∧ Wrote k init child ∧
    boot (sample true) = .user k0 ∧ Accounted (sample true) k0 k := by
  obtain ⟨_,k,init,child,run,_,wrote⟩ := sample_wrote
  have orderly : Reachable (sample true) Orderly k :=
    (run_mono (fun _ _ (plain : Plain _ _) => ⟨plain.waits,plain.forks,plain.lives⟩) run).reachable
  obtain ⟨k0,booted,accounted⟩ := frame_accounting orderly
  exact ⟨k0,k,init,child,orderly,wrote,booted,accounted⟩

/-! ### The kernel half -/

/-- The kernel half of every address space is the one of the boot, and no user page lies in it; below it the only leaf
    of the kernel is the console device. -/
structure KernelHalf (k0 k : Kernel) : Prop where
  entries : ∀ init i p v, k0.process_list 0 = some init → k.process_list i = some p → p.state ≠ .Gone →
    KERNEL_VPN2_MIN ≤ v → v < 512 →
    load64 k.mm.mem (entry_at p.page_table.root v) = load64 k0.mm.mem (entry_at init.page_table.root v)
  identity : ∀ i p pa, k.process_list i = some p → p.state ≠ .Gone → pa%4096 = 0 → RAM_BASE ≤ pa → pa < RAM_BASE+RAM_SIZE →
    ∃ e, entryOf k.mm p.page_table pa = some e ∧ is_valid e = true ∧ ppn_to_addr e = pa ∧ is_r e = true ∧ is_w e = true ∧
      is_x e = true ∧ is_u e = false
  supervisor : ∀ i p va e, k.process_list i = some p → p.state ≠ .Gone → entryOf k.mm p.page_table va = some e →
    is_valid e = true → KERNEL_VPN2_MIN ≤ vpn va 2 → is_u e = false
  device : ∀ i p va e, k.process_list i = some p → p.state ≠ .Gone → entryOf k.mm p.page_table va = some e →
    is_valid e = true → is_u e = false → vpn va 2 < KERNEL_VPN2_MIN → pageOf va*4096 = UART0 ∧ ppn_to_addr e = UART0
  tables : ∀ init f, k0.process_list 0 = some init → UpperTable k0.mm.mem init.page_table.root f →
    (∀ j, j < 4096 → k.mm.mem (f+j) = k0.mm.mem (f+j)) ∧ refsOf k.mm f = 1 ∧ f ∉ freeList k.mm

theorem identityLeaf_spec {n : Nat} (bound : n*4096 < 2^56) :
    is_valid (identityLeaf n) = true ∧ ppn_to_addr (identityLeaf n) = n*4096 ∧ is_r (identityLeaf n) = true ∧
      is_w (identityLeaf n) = true ∧ is_x (identityLeaf n) = true ∧ is_u (identityLeaf n) = false := by
  obtain ⟨v,r,w,x,u⟩ := PTEFlags.new_bits true true true false
  unfold identityLeaf
  rw [is_valid_eq,is_r_eq,is_w_eq,is_x_eq,is_u_eq]
  refine ⟨?_,ppn_new_leaf _ (by omega) bound,?_,?_,?_,?_⟩
  · rw [getLsbD_new_leaf_low _ _ (by omega),v]
  · rw [getLsbD_new_leaf_low _ _ (by omega),r]
  · rw [getLsbD_new_leaf_low _ _ (by omega),w]
  · rw [getLsbD_new_leaf_low _ _ (by omega),x]
  · rw [getLsbD_new_leaf_low _ _ (by omega),u]

/-- The word of an entry is known from the table that it names. -/
theorem slot_word {e d : PTEntry} {t : Option Nat} (first : Slot true e t) (second : Slot true d t) : e = d := by
  cases t with
  | none => rw [first.2 rfl,second.2 rfl]
  | some a => rw [first.word rfl,second.word rfl]

/-- The kernel half stays as the boot built it in every state that good status pointers reach. -/
theorem kernel_half_fixed {cfg : Config} {k : Kernel} (reached : Reachable cfg WaitsWell k) :
    ∃ k0, boot cfg = .user k0 ∧ KernelHalf k0 k := by
  obtain ⟨r,s,m,g0,g,booted,launch,user⟩ := reachable_user false (fun _ _ waits => ⟨waits,by simp⟩) reached
  have inv := user.inv
  have half := inv.half
  have start : RAM_BASE = 0x80000000 := rfl
  have ram : RAM_BASE+RAM_SIZE = 0x88000000 := rfl
  have stop : RAM_END = 0x88000000 := rfl
  have two : KERNEL_VPN2_MIN = 2 := rfl
  have leaf : ∀ {i p va e}, k.process_list i = some p → p.state ≠ .Gone → entryOf k.mm p.page_table va = some e →
      is_valid e = true → (g.tree p.page_table.root).leaf (pageOf va) = e :=
    fun slot there found valid => (entryOf_valid inv.good _ (inv.link.root slot there) valid).mp found
  refine ⟨_,booted,⟨?_,?_,?_,?_,?_⟩⟩
  · intro init i p v first slot there high inside
    rw [two] at high
    rw [(launched_only first).2]
    have isRoot := inv.link.root slot there
    refine slot_word ((inv.good.mirrors.tables.tree _ isRoot).top v inside) ?_
    rw [half.tops _ v isRoot high]
    exact (launch.user.inv.good.mirrors.tables.tree r launch.booted.root).top v inside
  · intro i p pa slot there aligned low high
    have isRoot := inv.link.root slot there
    have page : pageOf pa = pa/4096 := pageOf_low (by omega)
    have here : (g.tree p.page_table.root).leaf (pageOf pa) = identityLeaf (pa/4096) := by
      rw [half.upper _ _ isRoot (by omega),page]
      refine (launch.booted.upper _ (by omega)).trans ?_
      unfold Boot.identity
      exact if_pos ⟨by omega,by omega⟩
    obtain ⟨valid,names,r,w,x,u⟩ := identityLeaf_spec (n := pa/4096) (by omega)
    refine ⟨_,(entryOf_valid inv.good _ isRoot valid).mpr here,valid,?_,r,w,x,u⟩
    rw [names]
    omega
  · intro i p va e slot there found valid high
    rw [two,vpn_two] at high
    have inside := pageOf_lt va
    rw [← leaf slot there found valid]
    exact inv.good.sound.upper _ _ (inv.link.root slot there) (by omega) inside
  · intro i p va e slot there found valid plain low
    rw [two,vpn_two] at low
    have here := leaf slot there found valid
    rcases inv.good.sound.plain _ (pageOf va) (inv.link.root slot there) (by omega) (by rw [here,plain]; simp) with zero | ⟨page,entry⟩
    · rw [here] at zero
      rw [zero] at valid
      exact absurd valid (by decide)
    · rw [here] at entry
      rw [page,entry]
      exact ⟨by decide,by decide⟩
  · intro init f first table
    rw [(launched_only first).2] at table
    have kernel0 : g0.own f = .kernel := (launch_kernel launch f).mpr table
    have kernel : g.own f = .kernel := (half.kernel f).mpr kernel0
    have pool := inv.good.mirrors.pool
    refine ⟨fun j inside => half.bytes f j kernel0 inside,?_,?_⟩
    · unfold refsOf
      rw [pool.refs f (by rw [kernel]; simp),inv.good.sound.others f (by rw [kernel]; simp) (by rw [kernel]; simp),
        if_neg (by rw [kernel]; simp)]
      rfl
    · rw [freeList,cells_free pool,pool.free,kernel]
      simp

theorem kernel_half_fixed_after_store : ∃ k0 k init child, Reachable (sample true) WaitsWell k ∧ Wrote k init child ∧
    boot (sample true) = .user k0 ∧ KernelHalf k0 k := by
  obtain ⟨_,k,init,child,run,_,wrote⟩ := sample_wrote
  have reached := (plain_waits run).reachable
  obtain ⟨k0,booted,half⟩ := kernel_half_fixed reached
  exact ⟨k0,k,init,child,reached,wrote,booted,half⟩

end Unit00.Isolation
