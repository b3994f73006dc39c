import Unit00.Progress

/-!
Runs that are put together step by step. A stage of a run knows the processes of
the machine and how many frames it has left; forks, waits and exits lead from one
stage to the next.
-/
namespace Unit00.Stages
open Unit00.Memory Unit00.Execution Unit00.Frame Unit00.Paging Unit00.Paging.PTEntry Unit00.Trees Unit00.Ownership
open Unit00.Mirror Unit00.Space Unit00.Pages Unit00.Ranges Unit00.Clearing Unit00.Forking Unit00.Access Unit00.Mmu
open Unit00.Task Unit00.Scheduler Unit00.Syscall Unit00.Machine Unit00.Lifecycle Unit00.Steps Unit00.Invariant
open Unit00.Services Unit00.Areas Unit00.Traps Unit00.View Unit00.Boot Unit00.Runs Unit00.Progress
open Unit00.Eager (Page Pages Image World pageUp)

/-! ### Plain events -/

/-- A system call with its number and arguments, from the code of a program. -/
def callEvent (number : BitVec 64) (args : List (BitVec 64)) : Event :=
  ⟨⟨fun i => if i.val = 17 then number else if 10 ≤ i.val then args.getD (i.val-10) 0 else 0,0x10000,0⟩,.ecall⟩

theorem callEvent_argument (number : BitVec 64) (args : List (BitVec 64)) (i : Fin 6) :
    argument (callEvent number args) i = (args.getD i.val 0).toNat := by
  have inside := i.isLt
  unfold argument callEvent
  dsimp only
  rw [if_neg (by omega),if_pos (by omega),Nat.add_sub_cancel_left]

theorem callEvent_calls (number : BitVec 64) (args : List (BitVec 64)) : Calls (callEvent number args) number.toNat := ⟨rfl,rfl⟩

/-- An event that is no wait with a bad status pointer, no fork short of frames, no fatal fault and no exec. -/
structure Plain (k : Kernel) (e : Event) : Prop where
  waits : WaitsWell k e
  forks : ForksWell k e
  lives : ¬ Kills k e
  stays : ¬ Calls e SYS_EXEC

theorem call_lives {k : Kernel} {e : Event} (call : e.action = .ecall) : ¬ Kills k e := by
  intro kills
  unfold Kills visible trapOf at kills
  rw [call] at kills
  dsimp only at kills
  rw [if_neg (by decide),if_pos rfl] at kills
  cases kills

theorem plain_call {k : Kernel} {e : Event} {number : Nat} (calls : Calls e number) (waits : number = SYS_WAIT → WaitsWell k e)
    (forks : number = SYS_FORK → ForksWell k e) (stays : number ≠ SYS_EXEC) : Plain k e :=
  ⟨fun other => waits (calls.2.symm.trans other.2) other,fun other => forks (calls.2.symm.trans other.2) other,call_lives calls.1,
    fun other => stays (calls.2.symm.trans other.2)⟩

theorem run_mono {cfg : Config} {allowed wider : Kernel → Event → Prop} (may : ∀ k e, allowed k e → wider k e)
    {history : List (Kernel × Event)} {k : Kernel} (run : Run cfg allowed history k) : Run cfg wider history k := by
  induction run with
  | boot run => exact .boot run
  | step _ here run ih => exact .step ih (may _ _ here) run

theorem plain_waits {cfg : Config} {history : List (Kernel × Event)} {k : Kernel} (run : Run cfg Plain history k) :
    Run cfg WaitsWell history k := run_mono (fun _ _ plain => plain.waits) run

/-! ### Stages -/

/-- The process table with the first slots in use. -/
def tableOf (headers : List Header) : Slots := fun i => headers[i.val]?

theorem system_eq {a b : System} (table : ∀ i, a.slots i = b.slots i) (current : a.current = b.current)
    (next_pid : a.next_pid = b.next_pid) : a = b := by
  obtain ⟨ta,ca,na⟩ := a
  obtain ⟨tb,cb,nb⟩ := b
  dsimp only at table current next_pid
  rw [funext table,current,next_pid]

/-- The frames above the bump pointer. -/
def above (g : Ledger) : Nat := (RAM_END-g.next)/4096

/-- A run that has come to processes as given, with room for more above the bump pointer. -/
structure Stage (cfg : Config) (history : List (Kernel × Event)) (o : Origin) (s : System) (n : Nat) (k : Kernel) (g : Ledger) :
    Prop where
  run : Run cfg Plain history k
  user : InUser false o k g
  procs : Steps.procs k = s
  room : n ≤ above g

theorem tablesFor_leaves (g : Ledger) (r : Nat) : tablesFor (leafPages g r) ≤ 1026 := by
  unfold tablesFor
  have tops : lacking 512 (fun v => ∃ n ∈ leafPages g r, n/512/512 = v) (fun _ => none) ≤ (Finset.range 2).card := by
    refine lacking_le ?_
    rintro v _ ⟨n,⟨low,_⟩,rfl⟩
    exact Finset.mem_range.mpr (by omega)
  have mids : lacking (2^18) (fun i => ∃ n ∈ leafPages g r, n/512 = i) (fun _ => none) ≤ (Finset.range 1024).card := by
    refine lacking_le ?_
    rintro v _ ⟨n,⟨low,_⟩,rfl⟩
    exact Finset.mem_range.mpr (by omega)
  rw [Finset.card_range] at tops mids
  omega

/-- Frames for all tables are frames for those of the user pages. -/
theorem fits_users {exact : Bool} {base : Nat} {m : Mm} {g : Ledger} (good : Good exact base m g) {r : Nat} (fits : FitsAll g r) : Fits g r := by
  have subset : ∀ n ∈ userPages g r, n ∈ leafPages g r := by
    rintro n ⟨e,leaf⟩
    exact ⟨good.sound.low leaf,by rw [leaf.entry]; exact leaf.valid⟩
  have fewer := tablesFor_mono subset
  unfold FitsAll at fits
  unfold Fits
  omega

/-- The stack of a child fits when nine frames are left above the bump pointer. -/
theorem stackFits_above {exact : Bool} {base : Nat} {m : Mm} {g : Ledger} (good : Good exact base m g)
    (enough : 9 ≤ above g) : StackFits m := by
  have pool := good.mirrors.pool
  have total : RAM_BASE+RAM_SIZE = RAM_END := rfl
  have eight : KERNEL_STACK_PAGES = 8 := rfl
  unfold above at enough
  unfold StackFits
  rw [pool.next,total,eight]
  split <;> omega

/-- What the free list does not pay for comes from above the bump pointer. -/
theorem above_left {g g' : Ledger} (spends : Spends g g') {c : Nat} (paid : room g ≤ room g'+c) : above g ≤ above g'+c := by
  unfold room at paid
  unfold above
  rcases spends.2 with same | empty
  · rw [same]
    omega
  · rw [empty,List.length_nil] at paid
    omega

/-- What a fork in a stage leaves of the parent and of its child. -/
structure Branched (o : Origin) (idx : Fin MAX_PROCESSES) (k k' : Kernel) (g g' : Ledger) (p child : Process) : Prop where
  before : k.process_list k.current = some p
  parent : k'.process_list k.current = some (stopped (callEvent 220 []).ctx 8 0 p)
  slot : k'.process_list idx = some child
  records : child.heap_end = p.heap_end ∧ child.mmap_areas = p.mmap_areas
  fits : Fits g p.page_table.root
  forked : ∃ m m', Forked false o.base p.page_table.root child.page_table.root child.kernel_stack_frame m m' g g'
  kept : space k'.mm g' p.page_table.root = space k.mm g p.page_table.root
  copied : space k'.mm g' child.page_table.root = space k.mm g p.page_table.root

section
variable {cfg : Config} {history : List (Kernel × Event)} {o : Origin} {k : Kernel} {g : Ledger} {s : System} {n : Nat} {me : Header}

theorem runner_of (same : procs k = s) (running : s.slots s.current = some me) :
    ∃ p, k.process_list k.current = some p ∧ header p = me := by
  rw [← same] at running
  exact slots_inv running

/-- Where the boot ends. -/
theorem launch_stage {r st : Nat} {m : Mm} (launch : Launch false cfg r st m g) (booted : boot cfg = .user (launched cfg r st m)) :
    Stage cfg [] (origin cfg r st m g) ⟨tableOf [⟨1,0,.Running⟩],0,2⟩ (room g) (launched cfg r st m) g := by
  refine ⟨.boot booted,launch.user,?_,?_⟩
  · rw [boot_procs booted]
    exact system_eq (by decide +kernel) rfl rfl
  · unfold room above
    rw [launch.booted.free,List.length_nil]
    omega

/-- A fork in a stage. -/
theorem stage_fork (stage : Stage cfg history o s (n+1035) k g) (running : s.slots s.current = some me) (awake : me.state = .Running)
    (idx : Fin MAX_PROCESSES) (free : emptySlot s.slots = some idx) (after : System)
    (equal : { s with
      slots := Function.update s.slots idx (some ⟨s.next_pid,me.pid,.Ready⟩), next_pid := s.next_pid+1 } = after) :
    ∃ k' g' p child, Stage cfg ((k,callEvent 220 []) :: history) o after n k' g' ∧ step (callEvent 220 []) k = .user k' ∧
      Branched o idx k k' g g' p child := by
  obtain ⟨p,slot,rfl⟩ := runner_of stage.procs running
  have calls : Calls (callEvent 220 []) SYS_FORK := callEvent_calls _ _
  have same := stage.procs
  have enough := stage.room
  have good := stage.user.inv.good
  have isRoot := me_root stage.user slot awake
  obtain ⟨_,_,entered_slot,_,before⟩ := entered_inv stage.user slot awake (callEvent 220 []).ctx 8 0
  have tables := tablesFor_leaves g p.page_table.root
  have eight : KERNEL_STACK_PAGES = 8 := rfl
  have within : above g ≤ room g := by unfold above room; omega
  have fits : Fits g p.page_table.root :=
    fits_users good (show tablesFor (leafPages g p.page_table.root)+1+KERNEL_STACK_PAGES ≤ room g by omega)
  have plain : Plain k (callEvent 220 []) := by
    refine plain_call calls (fun other => absurd other (by decide)) (fun _ _ me' running' => ?_) (by decide)
    rw [runner,slot,Option.some.injEq] at running'
    rw [← running']
    exact (forkFits_iff good p.page_table isRoot).mpr fits
  rcases fork_cases stage.user slot awake calls with ⟨⟨k',run⟩,_⟩ | ⟨_,_,short⟩
  · obtain ⟨c,st,mm,g',forked,user,made,table,_,_,_,after_spaces⟩ := fork_next stage.user slot awake calls (by simp) run
      (show emptySlot (procs k).slots = some idx by rw [same]; exact free)
    have other : k.current ≠ idx := by
      rintro rfl
      have gone := emptySlot_gone (show emptySlot (procs k).slots = _ by rw [same]; exact free) (slots_some slot)
      cases gone.symm.trans awake
    refine ⟨k',g',p,forkChild (stopped (callEvent 220 []).ctx 8 0 p) k.next_pid c st,⟨stage.run.step plain run,user,?_,?_⟩,
      run,slot,by rw [table,Function.update_of_ne other]; exact entered_slot,by rw [table,Function.update_self],⟨rfl,rfl⟩,fits,
      ⟨_,mm,forked⟩,?_,?_⟩
    · rw [made,← equal,← same]
      rfl
    · have paid := forked.paid
      obtain ⟨fewer,next | empty⟩ := forked.spends
      · rcases forked.bump with same | ⟨_,same⟩ <;>
        · unfold above at enough ⊢
          omega
      · unfold room at paid within
        unfold above at enough ⊢
        rw [empty,List.length_nil] at paid
        omega
    · rw [after_spaces _ ((forked.roots _).mpr (.inl isRoot)),forked.spaces _ isRoot]
      exact before _ isRoot
    · refine (after_spaces c ((forked.roots c).mpr (.inr rfl))).trans ?_
      rw [← before _ isRoot]
      funext j
      exact (forked.pages j).resolve_right fun missing => missing.2 fits
  · exact absurd (stackFits_above good (by omega)) short

/-- A wait that blocks in a stage. -/
theorem stage_block (stage : Stage cfg history o s n k g) (running : s.slots s.current = some me) (awake : me.state = .Running)
    (none : zombieSlot s.slots me.pid = none) {i j : Fin MAX_PROCESSES} {child next : Header} (slot : s.slots i = some child)
    (mine : child.parent_pid = me.pid) (live : Live child) (picked : nextSlot (blockSlots s me) s.current = some j)
    (chosen : blockSlots s me j = some next) (after : System) (equal : switch s (blockSlots s me) j next = after) :
    ∃ k', Stage cfg ((k,callEvent 260 []) :: history) o after n k' g ∧ step (callEvent 260 []) k = .user k' := by
  obtain ⟨p,slotP,rfl⟩ := runner_of stage.procs running
  have calls : Calls (callEvent 260 []) SYS_WAIT := callEvent_calls _ _
  have waits : WaitsWell k (callEvent 260 []) := waits_null (by decide)
  have plain : Plain k (callEvent 260 []) :=
    plain_call calls (fun _ => waits) (fun other => absurd other (by decide)) (by decide)
  have same := stage.procs
  have current : s.current = k.current := by rw [← same]; rfl
  rw [current] at picked
  subst same
  obtain ⟨k',run⟩ := wait_blocks stage.user slotP awake calls none slot mine live picked
  obtain ⟨j',next',picked',chosen',made,user,_⟩ := block_next stage.user slotP awake calls waits (by simp) run none slot mine live
  rw [picked,Option.some.injEq] at picked'
  subst picked'
  rw [chosen,Option.some.injEq] at chosen'
  subst chosen'
  exact ⟨k',⟨stage.run.step plain run,user,made.trans equal,stage.room⟩,run⟩

/-- An exit in a stage. -/
theorem stage_exit (stage : Stage cfg history o s n k g) (running : s.slots s.current = some me) (awake : me.state = .Running)
    {j : Fin MAX_PROCESSES} (next : Header) (picked : nextSlot (dieSlots s me 0) s.current = some j)
    (chosen : dieSlots s me 0 j = some next) (after : System) (equal : switch s (dieSlots s me 0) j next = after) :
    ∃ k' g', Stage cfg ((k,callEvent 93 []) :: history) o after 0 k' g' ∧ step (callEvent 93 []) k = .user k' := by
  obtain ⟨p,slot,rfl⟩ := runner_of stage.procs running
  have calls : Calls (callEvent 93 []) SYS_EXIT := callEvent_calls _ _
  have plain : Plain k (callEvent 93 []) :=
    plain_call calls (fun other => absurd other (by decide)) (fun other => absurd other (by decide)) (by decide)
  have code : argument (callEvent 93 []) 0 = 0 := by decide
  have same := stage.procs
  have current : s.current = k.current := by rw [← same]; rfl
  rw [current] at picked
  subst same
  rw [← code] at picked chosen equal
  obtain ⟨k',run⟩ := exit_goes stage.user slot awake (.inl calls) picked
  obtain ⟨mm,g',j',next',_,picked',chosen',made,user⟩ := exit_next stage.user slot awake (.inl calls) (by simp) run
  rw [picked,Option.some.injEq] at picked'
  subst picked'
  rw [chosen,Option.some.injEq] at chosen'
  subst chosen'
  exact ⟨k',g',⟨stage.run.step plain run,user,made.trans equal,Nat.zero_le _⟩,run⟩

/-- A wait that reaps in a stage. -/
theorem stage_reap (stage : Stage cfg history o s n k g) (running : s.slots s.current = some me) (awake : me.state = .Running)
    (idx : Fin MAX_PROCESSES) {child : Header} (found : zombieSlot s.slots me.pid = some idx)
    (slot : s.slots idx = some child) (after : System)
    (equal : { s with slots := Function.update s.slots idx (some { child with state := .Gone }) } = after) :
    ∃ k' g', Stage cfg ((k,callEvent 260 []) :: history) o after 0 k' g' ∧ step (callEvent 260 []) k = .user k' := by
  obtain ⟨p,slotP,rfl⟩ := runner_of stage.procs running
  have calls : Calls (callEvent 260 []) SYS_WAIT := callEvent_calls _ _
  have null : argument (callEvent 260 []) 0 = 0 := by decide
  have plain : Plain k (callEvent 260 []) :=
    plain_call calls (fun _ => waits_null null) (fun other => absurd other (by decide)) (by decide)
  have same := stage.procs
  subst same
  obtain ⟨k',run⟩ := wait_reaps stage.user slotP awake calls null found
  obtain ⟨c,code,_,_,_,g',slotC,_,_,_,_,user,made,_⟩ := reap_next stage.user slotP awake calls (waits_null null) (by simp) run found
  have child_eq : some child = some (header c) := slot.symm.trans (slots_some slotC)
  rw [Option.some.injEq] at child_eq
  rw [child_eq] at equal
  exact ⟨k',g',⟨stage.run.step plain run,user,made.trans equal,Nat.zero_le _⟩,run⟩

end

/-- The frames that the pages of a range cost at most. -/
noncomputable def cost (lo hi : Nat) : Nat := hi-lo+tablesFor { j | lo ≤ j ∧ j < hi }

theorem cost_page (lo : Nat) : cost lo (lo+1) ≤ 3 := by
  have tops : lacking 512 (fun v => ∃ n ∈ { j | lo ≤ j ∧ j < lo+1 }, n/512/512 = v) (fun _ => none) ≤
      ({lo/512/512} : Finset Nat).card := by
    refine lacking_le ?_
    rintro v _ ⟨n,⟨low,high⟩,rfl⟩
    rw [Finset.mem_singleton,show n = lo by omega]
  have mids : lacking (2^18) (fun i => ∃ n ∈ { j | lo ≤ j ∧ j < lo+1 }, n/512 = i) (fun _ => none) ≤ ({lo/512} : Finset Nat).card := by
    refine lacking_le ?_
    rintro v _ ⟨n,⟨low,high⟩,rfl⟩
    rw [Finset.mem_singleton,show n = lo by omega]
  rw [Finset.card_singleton] at tops mids
  unfold cost tablesFor
  omega

theorem missing_most (g : Ledger) (r : Nat) (S : Set Nat) : missing g r S ≤ tablesFor S :=
  Nat.add_le_add (lacking_mono fun _ _ none => by cases none) (lacking_mono fun _ _ none => by cases none)

/-- New pages come when the range has none and there are frames for them. -/
theorem charged_granted {exact : Bool} {base : Nat} {m : Mm} {g g' : Ledger} (good : Good exact base m g) {r : Nat}
    (isRoot : g.own r = .root) {lo hi : Nat} {res : Bool} (charged : Charged r lo hi g g' res) (high : hi ≤ 2^19)
    (absent : ∀ j, lo ≤ j → j < hi → space m g r j = none ∧ j ≠ devicePage) (enough : cost lo hi < room g) : res = true := by
  have all : ∀ j, lo ≤ j → j < hi → j ∈ { j | lo ≤ j ∧ j < hi } := fun _ first last => ⟨first,last⟩
  have fewer := missing_most g r { j | lo ≤ j ∧ j < hi }
  unfold cost at enough
  cases res with
  | true => rfl
  | false =>
    rcases charged with ⟨j,first,last,valid⟩ | short
    · obtain ⟨none,other⟩ := absent j first last
      rw [space_low (by omega)] at none
      have plain : ¬ (is_valid ((g.tree r).leaf j) = true ∧ is_u ((g.tree r).leaf j) = true) := by
        rintro ⟨_,user⟩
        rw [pageAt_user valid user] at none
        cases none
      rcases good.sound.plain r j isRoot (by omega) plain with zero | ⟨page,_⟩
      · rw [zero] at valid
        exact absurd valid (by decide)
      · exact absurd page other
    · have := short _ all
      omega

/-- They leave what they do not cost. -/
theorem charged_paid {exact : Bool} {base : Nat} {m : Mm} {g g' : Ledger} (good : Good exact base m g) {r : Nat}
    (isRoot : g.own r = .root) {lo hi : Nat} {res : Bool} (charged : Charged r lo hi g g' res) (high : hi ≤ 2^19)
    (absent : ∀ j, lo ≤ j → j < hi → space m g r j = none ∧ j ≠ devicePage) {n : Nat}
    (enough : n+cost lo hi < above g) : res = true ∧ n ≤ above g' := by
  have within : above g ≤ room g := by
    unfold above room
    omega
  obtain rfl := charged_granted good isRoot charged high absent (by omega)
  obtain ⟨spends,paid⟩ := charged
  have fewer := missing_most g r { j | lo ≤ j ∧ j < hi }
  have left := above_left spends (c := cost lo hi) (by
    have := paid { j | lo ≤ j ∧ j < hi } fun _ first last => ⟨first,last⟩
    unfold cost
    omega)
  exact ⟨rfl,by omega⟩

section
variable {cfg : Config} {history : List (Kernel × Event)} {o : Origin} {k : Kernel} {g : Ledger} {s : System} {n : Nat} {me : Process}
  {e : Event}

/-- A break that grows into pages that are absent is granted when there are frames for it. -/
theorem brk_granted {brk : Nat} (user : InUser false o k g) (slot : k.process_list k.current = some me) (awake : me.state = .Running)
    (larger : me.heap_end < brk) (limit : brk ≤ USER_HEAP_LIMIT) (floor : me.heap_start ≤ brk)
    (absent : ∀ j, pageUp me.heap_end ≤ j → j < pageUp brk → space k.mm g me.page_table.root j = none ∧ j ≠ devicePage)
    (enough : n+cost (pageUp me.heap_end) (pageUp brk) < above g) (ctx : Context) :
    ∃ mm g', Acts false o.base me.page_table.root (entered ctx 8 0 k me).mm mm g g'
        (Eager.fillPages (pageUp me.heap_end) (pageUp brk) (Page.zero true true false) (space k.mm g me.page_table.root)) ∧
      n ≤ above g' ∧
      (sys_brk brk).run (entered ctx 8 0 k me) = .ok brk { entered ctx 8 0 k me with
        mm := mm
        process_list := Function.update (entered ctx 8 0 k me).process_list k.current
          (some { stopped ctx 8 0 me with heap_end := brk }) } := by
  obtain ⟨inv,_,here,_,spaces⟩ := entered_inv user slot awake ctx 8 0
  have isRoot := me_root user slot awake
  have top : USER_HEAP_LIMIT = 0x3e000000 := rfl
  have high : pageUp brk ≤ 2^19 := by
    unfold pageUp
    omega
  have pool := inv.link.pool here (by rw [show (stopped _ 8 0 me).state = .Running from awake]; simp)
  rcases sys_brk_grow inv.good here isRoot pool (show (stopped ctx 8 0 me).heap_end < brk from larger) with
    ⟨_,refused⟩ | ⟨_,res,mm,g',acts,_,_,charged,ran⟩
  · have low : ¬ brk < me.heap_start := by omega
    rcases refused with less | more
    · exact absurd less low
    · omega
  · obtain ⟨rfl,left⟩ := charged_paid inv.good isRoot charged high (fun j first last => by
      rw [spaces _ isRoot]
      exact absent j first last) enough
    rw [if_pos rfl,show space (entered ctx 8 0 k me).mm g (stopped ctx 8 0 me).page_table.root = _ from spaces _ isRoot] at acts
    exact ⟨mm,g',acts,left,ran⟩

/-- A break that grows in a stage. -/
theorem stage_brk {brk : Nat} (stage : Stage cfg history o s (n+cost (pageUp me.heap_end) (pageUp brk)+1) k g)
    (slot : k.process_list k.current = some me) (awake : me.state = .Running) (larger : me.heap_end < brk)
    (limit : brk ≤ USER_HEAP_LIMIT) (floor : me.heap_start ≤ brk)
    (absent : ∀ j, pageUp me.heap_end ≤ j → j < pageUp brk → space k.mm g me.page_table.root j = none ∧ j ≠ devicePage)
    (calls : Calls e SYS_BRK) (asks : argument e 0 = brk) :
    ∃ k' g' me', Stage cfg ((k,e) :: history) o s n k' g' ∧ step e k = .user k' ∧
      k'.current = k.current ∧ k'.process_list k.current = some me' ∧ me'.state = .Running ∧ me'.page_table = me.page_table ∧
      me'.heap_end = brk ∧ me'.mmap_areas = me.mmap_areas ∧
      space k'.mm g' me.page_table.root = Eager.fillPages (pageUp me.heap_end) (pageUp brk) (Page.zero true true false)
        (space k.mm g me.page_table.root) := by
  have plain : Plain k e :=
    plain_call calls (fun other => absurd other (by decide)) (fun other => absurd other (by decide)) (by decide)
  obtain ⟨_,_,here,_,_⟩ := entered_inv stage.user slot awake e.ctx 8 0
  have isRoot := me_root stage.user slot awake
  obtain ⟨mm,g',acts,left,ran⟩ := brk_granted stage.user slot awake larger limit floor absent stage.room e.ctx
  have run : callRun e k me = (sys_brk brk).run (entered e.ctx 8 0 k me) := by
    rw [callRun,calls.2,← asks]
    rfl
  rw [ran] at run
  obtain ⟨k',next,user,table,current,same,pages⟩ := call_served stage.user slot awake calls.1 run
    (Serves.of_update mm here acts ⟨rfl,rfl,rfl,rfl,rfl,rfl,rfl⟩) limit
  refine ⟨k',g',{ stopped e.ctx 8 0 me with heap_end := brk },
    ⟨stage.run.step plain next,user,same.trans stage.procs,left⟩,next,current,?_,awake,rfl,rfl,rfl,?_⟩
  · rw [table]
    exact Function.update_self _ _ _
  · rw [pages _ ((acts.aside.roots _).mpr isRoot)]
    exact acts.pages

/-- An anonymous mapping for reading and writing, at a place of the choice of the kernel, in a stage. -/
theorem stage_mmap (len start whole : Nat) (area : Fin MAX_MMAP_AREAS)
    (stage : Stage cfg history o s (n+cost (start/4096) ((start+whole)/4096)+1) k g)
    (slot : k.process_list k.current = some me) (awake : me.state = .Running)
    (length : Eager.mmapLength len 3 0x22 0 = some whole) (chosen : choose_mmap_addr me.mmap_areas 0 whole = .ok (some start))
    (found : find_free_mmap_slot me.mmap_areas = some area)
    (absent : ∀ j, start/4096 ≤ j → j < (start+whole)/4096 → space k.mm g me.page_table.root j = none ∧ j ≠ devicePage)
    (calls : Calls e SYS_MMAP) (asks : argument e = fun i => [0,len,3,0x22,0,0].getD i.val 0) :
    ∃ k' g' me', Stage cfg ((k,e) :: history) o s n k' g' ∧
      step e k = .user k' ∧
      k'.current = k.current ∧ k'.process_list k.current = some me' ∧ me'.state = .Running ∧ me'.page_table = me.page_table ∧
      me'.heap_end = me.heap_end ∧ me'.mmap_areas = Function.update me.mmap_areas area ⟨start,whole,3,0x22,true⟩ ∧
      space k'.mm g' me.page_table.root = Eager.fillPages (start/4096) ((start+whole)/4096) (Eager.protPage 3)
        (space k.mm g me.page_table.root) := by
  have plain : Plain k e :=
    plain_call calls (fun other => absurd other (by decide)) (fun other => absurd other (by decide)) (by decide)
  obtain ⟨inv,_,here,_,spaces⟩ := entered_inv stage.user slot awake e.ctx 8 0
  have isRoot := me_root stage.user slot awake
  have gap := choose_mmap_addr_gap chosen
  have limit : USER_MMAP_LIMIT = 0x3f000000 := rfl
  have enough : n+cost (start/4096) ((start+whole)/4096) < above g := stage.room
  have order : start/4096 ≤ (start+whole)/4096 := by omega
  have high : (start+whole)/4096 ≤ 2^19 := by
    have := gap.high
    omega
  rcases sys_mmap_cases 0 len 3 0x22 0 0 (entered e.ctx 8 0 k me) with
    ⟨_,_,_,refused⟩ | ⟨whole',flags,length',aligned,_,accepted,goes⟩
  · rw [length] at refused
    cases refused
  rw [length,Option.some.injEq] at length'
  subst length'
  have pool := inv.link.pool here (by rw [show (stopped _ 8 0 me).state = .Running from awake]; simp)
  have bound : 3 < 2^64 := by omega
  rcases @mmap_anonymous_cases _ _ _ _ _ inv.good here isRoot pool 0 whole 3 0x22 flags bound aligned accepted _ chosen with
    ⟨_,nowhere⟩ | ⟨start',area',res,mm,g',choice,found',acts,_,_,charged,ran⟩
  · exact absurd ⟨start,area,rfl,found⟩ nowhere
  · rw [Option.some.injEq] at choice
    subst choice
    rw [show find_free_mmap_slot (stopped _ 8 0 me).mmap_areas = _ from found,Option.some.injEq] at found'
    subst found'
    obtain ⟨rfl,left⟩ := charged_paid inv.good isRoot charged high (fun j first last => by
      rw [spaces _ isRoot]
      exact absent j first last) enough
    have run : callRun e k me =
        (sys_mmap 0 len 3 0x22 0 0).run (entered e.ctx 8 0 k me) := by
      have dispatched (args : Fin 6 → Nat) :
          dispatch SYS_MMAP args = sys_mmap (args 0) (args 1) (args 2) (args 3) (args 4) (args 5) := by
        unfold dispatch
        repeat rw [if_neg (by decide)]
        rw [if_pos rfl]
      rw [callRun,calls.2,asks,dispatched]
      rfl
    rw [goes,show (mmap_anonymous 0 whole 3 0x22 flags).run _ = _ from ran] at run
    obtain ⟨k',next,user,table,current,same,pages⟩ := call_served stage.user slot awake calls.1 run
      (Serves.of_update mm here acts ⟨rfl,rfl,rfl,rfl,rfl,rfl,rfl⟩) (stage.user.inv.heaps _ me slot).2
    refine ⟨k',g',{ stopped e.ctx 8 0 me with
        mmap_areas := Function.update me.mmap_areas area ⟨start,whole,3,0x22,true⟩ },
      ⟨stage.run.step plain next,user,same.trans stage.procs,left⟩,next,current,?_,awake,rfl,rfl,rfl,?_⟩
    · rw [table]
      exact Function.update_self _ _ _
    · have filled := acts.pages
      rw [if_pos rfl,show space (entered e.ctx 8 0 k me).mm g (stopped e.ctx 8 0 me).page_table.root = _ from spaces _ isRoot] at filled
      exact (pages _ ((acts.aside.roots _).mpr isRoot)).trans filled

end

/-- The boot takes few frames besides those of the program. -/
theorem bootCost_le {cfg : Config} (fits : ProgramFits cfg) : bootCost cfg ≤ 79+pageUp (progLen cfg) := by
  have tables := tablesFor_boot fits
  have eight : KERNEL_STACK_PAGES = 8 := rfl
  unfold bootCost
  omega

theorem bootCost_len {a b : Config} (same : progLen a = progLen b) : bootCost a = bootCost b := by
  unfold bootCost
  rw [same]

theorem launch_room {exact : Bool} {cfg : Config} {r st : Nat} {m : Mm} {g : Ledger} (launch : Launch exact cfg r st m g) :
    (RAM_END-bootBase cfg)/4096 ≤ room g+79+pageUp (progLen cfg) := by
  have fewer := bootCost_le launch.fits
  have paid := launch.paid
  omega

theorem sample_room {r st : Nat} {m : Mm} {g : Ledger} (launch : Launch false (sample true) r st m g) : 5*1035 ≤ room g := by
  have len : pageUp (progLen (sample true)) = 1 := by decide
  have base : bootBase (sample true) = 0x80100000 := by decide
  have ram : RAM_END = 0x88000000 := rfl
  have most := launch_room launch
  rw [base,len] at most
  omega

/-- The sample machine after its boot: init has one page of code and one of stack. -/
theorem sample_stage : ∃ o k g init, boot (sample true) = .user k ∧
    Stage (sample true) [] o ⟨tableOf [⟨1,0,.Running⟩],0,2⟩ (5*1035) k g ∧ k.process_list 0 = some init ∧
    init.state = .Running ∧ init.heap_start = USER_HEAP_START ∧ init.heap_end = USER_HEAP_START ∧
    init.mmap_areas = (fun _ => .EMPTY) ∧ Initial (space k.mm g init.page_table.root) 1 := by
  obtain ⟨k,booted⟩ := boot_succeeds (sample_fits true)
  obtain ⟨r,s,m,g,rfl,launch⟩ := boot_launch false booted
  have len : pageUp (progLen (sample true)) = 1 := by decide
  have initial := launch.initial
  rw [len] at initial
  have stage := launch_stage launch booted
  exact ⟨_,_,g,initProcess r s,booted,⟨stage.run,stage.user,stage.procs,(sample_room launch).trans stage.room⟩,
    launched_init _ r s m,rfl,rfl,rfl,rfl,initial⟩

/-! ### Runs of the sample machine -/

/-- Init forks, waits for its child and is blocked while the child runs. -/
structure Handover (o : Origin) (k0 k1 k2 : Kernel) (g0 g1 : Ledger) (init child : Process) : Prop where
  at0 : Stage (sample true) [] o ⟨tableOf [⟨1,0,.Running⟩],0,2⟩ (5*1035) k0 g0
  slot : k0.process_list 0 = some init
  pages : Initial (space k0.mm g0 init.page_table.root) 1
  branched : Branched o 1 k0 k1 g0 g1 init child
  at1 : Stage (sample true) [(k0,callEvent 220 [])] o ⟨tableOf [⟨1,0,.Running⟩,⟨2,1,.Ready⟩],0,3⟩ (4*1035) k1 g1
  at2 : Stage (sample true) [(k1,callEvent 260 []),(k0,callEvent 220 [])] o ⟨tableOf [⟨1,0,.Blocked⟩,⟨2,1,.Running⟩],1,3⟩ (4*1035) k2 g1
  forked : step (callEvent 220 []) k0 = .user k1
  waited : step (callEvent 260 []) k1 = .user k2

theorem sample_handover : ∃ o k0 k1 k2 g0 g1 init child, Handover o k0 k1 k2 g0 g1 init child := by
  obtain ⟨o,k0,g0,init,_,at0,slot,_,_,_,_,pages⟩ := sample_stage
  obtain ⟨k1,g1,p,child,at1,forked,branched⟩ := stage_fork (n := 4*1035) at0 rfl rfl 1 (by decide +kernel)
    ⟨tableOf [⟨1,0,.Running⟩,⟨2,1,.Ready⟩],0,3⟩ (system_eq (by decide +kernel) rfl rfl)
  obtain ⟨k2,at2,waited⟩ := stage_block at1 rfl rfl (by decide +kernel) (i := 1) (j := 1) rfl rfl (.inl rfl) (by decide +kernel) rfl
    ⟨tableOf [⟨1,0,.Blocked⟩,⟨2,1,.Running⟩],1,3⟩ (system_eq (by decide +kernel) rfl rfl)
  have before := branched.before
  rw [show k0.current = 0 from congrArg System.current at0.procs] at before
  obtain rfl : init = p := Option.some.inj (slot.symm.trans before)
  exact ⟨o,k0,k1,k2,g0,g1,init,child,at0,slot,pages,branched,at1,at2,forked,waited⟩

/-- The child exits, and init runs again. -/
theorem Handover.exit {o : Origin} {k0 k1 k2 : Kernel} {g0 g1 : Ledger} {init child : Process}
    (handover : Handover o k0 k1 k2 g0 g1 init child) :
    ∃ k3 g3, Stage (sample true) [(k2,callEvent 93 []),(k1,callEvent 260 []),(k0,callEvent 220 [])] o
      ⟨tableOf [⟨1,0,.Running⟩,⟨2,1,.Zombie 0⟩],0,3⟩ 0 k3 g3 ∧ step (callEvent 93 []) k2 = .user k3 :=
  stage_exit handover.at2 rfl rfl (j := 0) ⟨1,0,.Ready⟩ (by decide +kernel) (by decide +kernel)
    ⟨tableOf [⟨1,0,.Running⟩,⟨2,1,.Zombie 0⟩],0,3⟩ (system_eq (by decide +kernel) rfl rfl)

/-- A store of init to the first page of its heap. -/
def heapStore : Event := ⟨⟨fun _ => 0,0x10000,0⟩,.store 0x20000 7⟩

theorem store_plain {k : Kernel} (resolved : trapOf k heapStore = none ∨ trapOf k heapStore = some (15,0x20000) ∧ resolves k 0x20000) :
    Plain k heapStore := by
  have silent : ∀ number, ¬ Calls heapStore number := fun _ calls => by cases calls.1
  refine ⟨fun calls => absurd calls (silent _),fun calls => absurd calls (silent _),fun kills => ?_,silent _⟩
  unfold Kills visible at kills
  rcases resolved with none | ⟨fault,cow⟩
  · rw [none] at kills
    cases kills
  · rw [fault] at kills
    dsimp only at kills
    rw [if_neg (by decide),if_neg (by decide),if_pos ⟨rfl,cow⟩] at kills
    cases kills

/-- Init has grown its heap, mapped a page and forked. The page of its heap is copied on write. -/
structure Shared (o : Origin) (k : Kernel) (g : Ledger) (init child : Process) : Prop where
  user : InUser false o k g
  procs : Steps.procs k = ⟨tableOf [⟨1,0,.Running⟩,⟨2,1,.Ready⟩],0,3⟩
  slot : k.process_list 0 = some init
  slotC : k.process_list 1 = some child
  heaps : init.heap_end = 0x21000 ∧ child.heap_end = 0x21000
  areas : ∃ i, init.mmap_areas i = ⟨0x3e000000,4096,3,0x22,true⟩ ∧ child.mmap_areas i = ⟨0x3e000000,4096,3,0x22,true⟩
  zeros : space k.mm g init.page_table.root 32 = some (Page.zero true true false) ∧
    space k.mm g child.page_table.root 32 = some (Page.zero true true false)
  cow : CowPage g init.page_table.root 32
  room : 1035 ≤ above g

theorem pair_headers {k : Kernel} {init child : Process}
    (same : Steps.procs k = ⟨tableOf [⟨1,0,.Running⟩,⟨2,1,.Ready⟩],0,3⟩) (slot : k.process_list 0 = some init)
    (slotC : k.process_list 1 = some child) : header init = ⟨1,0,.Running⟩ ∧ header child = ⟨2,1,.Ready⟩ := by
  have table : slots k.process_list = _ := congrArg System.slots same
  have first := slots_some slot
  have second := slots_some slotC
  rw [table] at first second
  exact ⟨(Option.some.inj first).symm,(Option.some.inj second).symm⟩

theorem Shared.awake {o : Origin} {k : Kernel} {g : Ledger} {init child : Process} (shared : Shared o k g init child) :
    init.state = .Running := congrArg Lifecycle.Header.state (pair_headers shared.procs shared.slot shared.slotC).1

theorem Shared.lives {o : Origin} {k : Kernel} {g : Ledger} {init child : Process} (shared : Shared o k g init child) :
    Live (header child) := by
  rw [(pair_headers shared.procs shared.slot shared.slotC).2]
  exact .inl rfl

section
variable {o : Origin} {k : Kernel} {g : Ledger} {init child : Process}

theorem Shared.current (shared : Shared o k g init child) : k.current = 0 := congrArg System.current shared.procs

theorem Shared.running (shared : Shared o k g init child) : k.process_list k.current = some init := by
  rw [shared.current]
  exact shared.slot

theorem Shared.frames (shared : Shared o k g init child) : 0 < Mirror.room g := by
  have := shared.room
  unfold above at this
  unfold Mirror.room
  omega

theorem Shared.denied (shared : Shared o k g init child) :
    translate k.hart k.mm.mem .user .store (0x20000 : BitVec 64).toNat = none := by
  have good := shared.user.inv.good
  obtain ⟨e,leaf,cow⟩ := shared.cow
  have page : UserLeaf g init.page_table.root (pageOf (0x20000 : BitVec 64).toNat) e := leaf
  rw [translate_leaf good (shared.user.home _ shared.running) page,permits]
  simp [((good.sound.shape leaf).cow cow).2]

/-- The store of init to the shared page faults, and the fault can be resolved. -/
theorem Shared.faults (shared : Shared o k g init child) :
    trapOf k heapStore = some (15,0x20000) ∧ Plain k heapStore := by
  obtain ⟨e,leaf,cow⟩ := shared.cow
  have traps : trapOf k heapStore = some (15,0x20000) := by
    unfold trapOf heapStore
    dsimp only
    rw [shared.denied]
    rfl
  exact ⟨traps,store_plain (.inr ⟨traps,(resolves_iff shared.user shared.running shared.awake _).mpr ⟨e,leaf,cow⟩⟩)⟩

end

theorem sample_shared : ∃ history o k g init child, Run (sample true) Plain history k ∧
    history.map Prod.snd = [callEvent 220 [],callEvent 222 [0,0x1000,3,0x22],callEvent 214 [0x21000]] ∧ Shared o k g init child := by
  obtain ⟨o,k0,g0,init0,_,at0,slot0,awake0,start0,end0,areas0,initial⟩ := sample_stage
  have code : USER_CODE_BASE/4096 = 16 := rfl
  have stack : USER_STACK_PAGE/4096 = 258048 := rfl
  have device : devicePage = 65536 := rfl
  have bare : ∀ j, j ≠ 16 → j ≠ 258048 → space k0.mm g0 init0.page_table.root j = none := by
    intro j first second
    rw [← Option.not_isSome_iff_eq_none,initial.there j]
    omega
  have cur0 : k0.current = 0 := congrArg System.current at0.procs
  have heap0 : pageUp init0.heap_end = 32 := by rw [end0]; rfl
  have heap1 : pageUp 0x21000 = 33 := rfl
  have few0 : cost 32 33 ≤ 3 := cost_page 32
  obtain ⟨k1,g1,init1,at1,_,same1,slot1,awake1,table1,end1,areas1,pages1⟩ := stage_brk (n := 4*1035) (e := callEvent 214 [0x21000])
    ⟨at0.run,at0.user,at0.procs,by rw [heap0,heap1]; have := at0.room; omega⟩ (by rw [cur0]; exact slot0) awake0
    (show init0.heap_end < 0x21000 by rw [end0]; decide) (by decide) (by rw [start0]; decide)
    (by rw [heap0,heap1]; exact fun j low high => ⟨bare j (by omega) (by omega),by omega⟩) (callEvent_calls _ _)
    (callEvent_argument _ _ 0)
  rw [heap0,heap1] at pages1
  have cur1 : k1.current = 0 := same1.trans cur0
  rw [cur0] at slot1
  have few1 : cost (0x3e000000/4096) ((0x3e000000+4096)/4096) ≤ 3 := cost_page 253952
  obtain ⟨area,free⟩ := Option.isSome_iff_exists.mp (show (find_free_mmap_slot fun _ => .EMPTY).isSome = true by decide)
  obtain ⟨k2,g2,init2,at2,_,same2,slot2,awake2,table2,end2,areas2,pages2⟩ := stage_mmap (n := 3*1035)
    (e := callEvent 222 [0,0x1000,3,0x22]) 4096 0x3e000000 4096 area
    ⟨at1.run,at1.user,at1.procs,by have := at1.room; omega⟩ (by rw [cur1]; exact slot1) awake1 (by decide +kernel)
    (by rw [areas1,areas0]; decide +kernel) (by rw [areas1,areas0]; exact free)
    (by
      rw [table1,pages1]
      intro j low high
      refine ⟨?_,by omega⟩
      rw [Eager.fillPages,if_neg (by omega)]
      exact bare j (by omega) (by omega))
    (callEvent_calls _ _) (by
      funext i
      rw [callEvent_argument]
      revert i
      decide)
  have cur2 : k2.current = 0 := same2.trans cur1
  rw [cur1] at slot2
  obtain ⟨k3,g3,init,child,at3,_,branched⟩ := stage_fork (n := 1035)
    ⟨at2.run,at2.user,at2.procs,by have := at2.room; omega⟩ rfl rfl 1 (by decide +kernel)
    ⟨tableOf [⟨1,0,.Running⟩,⟨2,1,.Ready⟩],0,3⟩ (system_eq (by decide +kernel) rfl rfl)
  have before := branched.before
  rw [cur2] at before
  obtain rfl : init2 = init := Option.some.inj (slot2.symm.trans before)
  have page : space k2.mm g2 init2.page_table.root 32 = some (Page.zero true true false) := by
    rw [table2,pages2,Eager.fillPages,if_neg (by omega),table1,pages1]
    exact if_pos ⟨le_refl _,by omega⟩
  have mapped : init2.mmap_areas area = ⟨0x3e000000,4096,3,0x22,true⟩ := by
    rw [areas2]
    exact Function.update_self _ _ _
  have heap : init2.heap_end = 0x21000 := end2.trans end1
  have parent := branched.parent
  rw [cur2] at parent
  refine ⟨_,o,k3,g3,_,child,at3.run,rfl,at3.user,at3.procs,parent,branched.slot,⟨heap,branched.records.1.trans heap⟩,
    ⟨area,mapped,by rw [branched.records.2]; exact mapped⟩,⟨?_,?_⟩,?_,at3.room⟩
  · exact (congrFun branched.kept 32).trans page
  · exact (congrFun branched.copied 32).trans page
  · -- The page was writable before the fork.
    have isRoot := at2.user.inv.link.root slot2 (by rw [awake2]; simp)
    obtain ⟨low,leaf⟩ := space_leaf isRoot page
    obtain ⟨_,_,forked⟩ := branched.forked
    have shared := forked.parent 32 _ leaf
    rw [space_low low,pageAt_user leaf.valid leaf.user,Option.some.injEq] at page
    have writes : (is_w ((g2.tree init2.page_table.root).leaf 32) || is_cow ((g2.tree init2.page_table.root).leaf 32)) = true :=
      congrArg Page.writable page
    refine ⟨_,⟨(forked.roots _).mpr (.inl isRoot),by omega,shared,?_,?_⟩,?_⟩
    · rw [sharedEntry_valid]
      exact leaf.valid
    · rw [sharedEntry_u]
      exact leaf.user
    · rw [sharedEntry_cow]
      exact writes

/-- After the fork init has stored to its heap, and its child has its own heap still. -/
structure Wrote (k : Kernel) (init child : Process) : Prop where
  procs : Steps.procs k = ⟨tableOf [⟨1,0,.Running⟩,⟨2,1,.Ready⟩],0,3⟩
  slot : k.process_list 0 = some init
  slotC : k.process_list 1 = some child
  heaps : init.heap_end = 0x21000 ∧ child.heap_end = 0x21000
  areas : ∃ i, init.mmap_areas i = ⟨0x3e000000,4096,3,0x22,true⟩ ∧ child.mmap_areas i = ⟨0x3e000000,4096,3,0x22,true⟩
  bytes : byteOf k.mm init.page_table 0x20000 = some 7 ∧ byteOf k.mm child.page_table 0x20000 = some 0

section
variable {history : List (Kernel × Event)} {o : Origin} {k : Kernel} {g : Ledger} {init child : Process}

/-- The store faults once, since the page is copied on write. -/
theorem first_store (shared : Shared o k g init child) :
    ∃ k' g', Plain k heapStore ∧ step heapStore k = .user k' ∧ InUser false o k' g' ∧ Steps.procs k' = Steps.procs k ∧
      k'.process_list 0 = some (stopped heapStore.ctx 15 0x20000 init) ∧ k'.process_list 1 = some child ∧
      trapOf k' heapStore = none ∧ pagesOf k'.mm child.page_table = pagesOf k.mm child.page_table := by
  have current := shared.current
  have running := shared.running
  have plain := shared.faults.2
  obtain ⟨_,k',g',_,run,_,passes,user,table,same⟩ := cow_fault_resolved shared.user running shared.awake heapStore.ctx
    0x20000 7 shared.cow (by decide) shared.denied shared.frames
  obtain ⟨_,_,slot,_,_⟩ := entered_inv shared.user running shared.awake heapStore.ctx 15 0x20000
  have other : (1 : Fin MAX_PROCESSES) ≠ k.current := by
    rw [current]
    decide
  obtain ⟨_,_,_,pages⟩ := step_bystander shared.user running shared.awake plain.waits (by simp) run other shared.slotC shared.lives
  refine ⟨k',g',plain,run,user,same,?_,?_,?_,pages⟩
  · rw [table,← current]
    exact slot
  · rw [table]
    exact (Function.update_of_ne other _ _).trans shared.slotC
  · unfold trapOf heapStore
    dsimp only
    rw [if_pos passes]

end

theorem Wrote.lives {k : Kernel} {init child : Process} (wrote : Wrote k init child) : Live (header init) ∧ Live (header child) := by
  obtain ⟨first,second⟩ := pair_headers wrote.procs wrote.slot wrote.slotC
  rw [first,second]
  exact ⟨.inr (.inl rfl),.inl rfl⟩

/-- The second store passes. The child does not see it. -/
theorem sample_wrote : ∃ history k init child, Run (sample true) Plain history k ∧
    history.map Prod.snd =
      [heapStore,heapStore,callEvent 220 [],callEvent 222 [0,0x1000,3,0x22],callEvent 214 [0x21000]] ∧
    Wrote k init child := by
  obtain ⟨history,o,k0,g0,init,child,run0,events,shared⟩ := sample_shared
  obtain ⟨k1,g1,plain1,run1,user1,same1,slot1,slotC,silent,pages1⟩ := first_store shared
  have at1 := run0.step plain1 run1
  have current1 : k1.current = 0 := (congrArg System.current same1).trans shared.current
  have running1 : k1.process_list k1.current = some (stopped heapStore.ctx 15 0x20000 init) := by rw [current1]; exact slot1
  have awake1 : (stopped heapStore.ctx 15 0x20000 init).state = .Running := shared.awake
  have plain2 := store_plain (.inl silent)
  have run2 : step heapStore k1 = .user (accessed k1 heapStore) := by rw [step_eq,silent]
  obtain ⟨acts,mm,after⟩ := store_acts user1 running1 awake1 0x20000 7 rfl silent
  obtain ⟨d,leaf,_⟩ := stored user1 running1 awake1 0x20000 7 rfl silent
  have here : UserLeaf g1 (stopped heapStore.ctx 15 0x20000 init).page_table.root 32 d := leaf
  obtain ⟨user2,_⟩ := accessed_user user1 running1 awake1 silent
  have table : (accessed k1 heapStore).process_list = k1.process_list := by rw [after]
  have other : (1 : Fin MAX_PROCESSES) ≠ k1.current := by
    rw [current1]
    decide
  obtain ⟨_,_,_,pages2⟩ := step_bystander user1 running1 awake1 plain2.waits (by simp) run2 other slotC shared.lives
  have isRoot := user1.inv.link.root slot1 (by rw [awake1]; simp)
  have there := live_there shared.lives
  have rootC0 := shared.user.inv.link.root shared.slotC there
  have rootC2 := user2.inv.link.root (table ▸ slotC) there
  rw [pagesOf_eq user2.inv.good _ rootC2,pages1,pagesOf_eq shared.user.inv.good _ rootC0] at pages2
  refine ⟨_,accessed k1 heapStore,stopped heapStore.ctx 15 0x20000 init,child,at1.step plain2 run2,?_,?_,table ▸ slot1,
    table ▸ slotC,shared.heaps,shared.areas,?_,?_⟩
  · simp only [List.map_cons,events]
  · rw [after]
    exact same1.trans shared.procs
  · have page := congrFun acts.pages 32
    rw [Eager.writeByte,if_pos (show 32 = pageOf (0x20000 : BitVec 64).toNat from rfl)] at page
    rw [space_low (m := k1.mm) (by omega),here.entry,pageAt_user here.valid here.user] at page
    rw [byteOf_eq user2.inv.good _ isRoot,show pageOf 0x20000 = 32 from rfl,page]
    rfl
  · rw [byteOf_eq user2.inv.good _ rootC2,pages2,show pageOf 0x20000 = 32 from rfl,shared.zeros.2]
    rfl

end Unit00.Stages
