import Unit00.Runs

/-!
When a trap comes back. A system call that finds the frames it needs returns or
switches to a process that is ready; the process that goes on is determined by
the process table. These are the steps from which whole runs are put together.
-/
namespace Unit00.Progress
open Unit00.Memory Unit00.Execution Unit00.Frame Unit00.Paging Unit00.Paging.PTEntry Unit00.Trees Unit00.Ownership
open Unit00.Mirror Unit00.Space Unit00.Pages Unit00.Ranges Unit00.Clearing Unit00.Forking Unit00.Access Unit00.Mmu
open Unit00.Task Unit00.Scheduler Unit00.Syscall Unit00.Machine Unit00.Lifecycle Unit00.Steps Unit00.Invariant
open Unit00.Services Unit00.Traps Unit00.View Unit00.Boot Unit00.Runs

/-! ### Choices of the kernel by the headers alone -/

/-- The slot that a new process takes. -/
def emptySlot (s : Slots) : Option (Fin MAX_PROCESSES) :=
  (List.finRange MAX_PROCESSES).find? fun i =>
    match s i with
    | none => true
    | some h => h.state == .Gone

/-- Whether a slot holds a ready process. -/
def readySlot (s : Slots) (i : Fin MAX_PROCESSES) : Bool :=
  match s i with
  | none => false
  | some h => h.state == .Ready

theorem slot_lt (cur : Fin MAX_PROCESSES) (i : Nat) : (cur.val+i)%MAX_PROCESSES < MAX_PROCESSES := Nat.mod_lt _ (by decide)

/-- The process that runs next. -/
def nextSlot (s : Slots) (cur : Fin MAX_PROCESSES) : Option (Fin MAX_PROCESSES) :=
  ((List.range' 1 MAX_PROCESSES).map fun i => (⟨(cur.val+i)%MAX_PROCESSES,slot_lt cur i⟩ : Fin MAX_PROCESSES)).find?
    (readySlot s)

/-- The zombie that a wait reaps. -/
def zombieSlot (s : Slots) (pid : Nat) : Option (Fin MAX_PROCESSES) :=
  (List.finRange MAX_PROCESSES).find? fun i =>
    match s i with
    | none => false
    | some h =>
      h.parent_pid == pid && match h.state with
        | .Zombie _ => true
        | _ => false

theorem find_empty_slot_eq (t : Table) : find_empty_slot t = emptySlot (slots t) := by
  unfold find_empty_slot emptySlot
  congr 1
  funext i
  unfold slots
  cases t i <;> rfl

theorem emptySlot_gone {t : Slots} {i : Fin MAX_PROCESSES} (free : emptySlot t = some i) {h : Header} (slot : t i = some h) : h.state = .Gone := by
  have kind := List.find?_some free
  simpa [slot] using kind

theorem pick_next_eq (t : Table) (cur : Fin MAX_PROCESSES) : pick_next t cur = nextSlot (slots t) cur := by
  unfold pick_next nextSlot
  congr 1
  funext i
  unfold ready readySlot slots
  cases t i <;> rfl

theorem zombie_child_eq (t : Table) (pid : Nat) :
    (List.finRange MAX_PROCESSES).find? (zombie_child t pid) = zombieSlot (slots t) pid := by
  unfold zombieSlot
  congr 1
  funext i
  unfold zombie_child slots
  cases t i <;> rfl

/-! ### Traps that come back -/

theorem leaving_current (r : Option Nat) (frame_base : Nat) (k : Kernel) : (leaving r frame_base k).current = k.current := by
  unfold leaving trap_exit_restore trap_return
  dsimp only
  split
  · split <;> rfl
  · rfl

section
variable {exact : Bool} {o : Origin} {k k' : Kernel} {g : Ledger} {me : Process} {e : Event}
  (user : InUser exact o k g) (running : k.process_list k.current = some me) (awake : me.state = .Running)

theorem trap_ok {ctx : Context} {scause stval : BitVec 64} {r : Nat} {t : Kernel}
    (run : (trap_handler scause stval).run (trap_entry ctx scause stval k) = .ok r t) :
    ∃ k', trap ctx scause stval k = .user k' := by
  unfold trap
  dsimp only
  rw [run_seq run,run_seq (EStateM.run_get _),EStateM.run_pure]
  exact ⟨_,rfl⟩

include user running in
/-- The state that a trap handler that comes back leaves. -/
theorem trap_leaves {ctx : Context} {scause stval : BitVec 64} {r : Nat} {t : Kernel}
    (run : (trap_handler scause stval).run (trap_entry ctx scause stval k) = .ok r t) :
    trap ctx scause stval k = .user (leaving (some r) (me.kernel_sp-TrapFrame.SIZE) t) := by
  unfold trap
  dsimp only
  rw [run_seq run,run_seq (EStateM.run_get _),EStateM.run_pure,user.sscratch me running]
  rfl

theorem trap_restore {ctx : Context} {scause stval : BitVec 64} {sp : Nat} {kh : Kernel}
    (run : (trap_handler scause stval).run (trap_entry ctx scause stval k) = .error (.restore sp) kh) :
    ∃ k', trap ctx scause stval k = .user k' := by
  unfold trap
  dsimp only
  rw [run_seq_error run]
  exact ⟨_,rfl⟩

theorem trap_halt {ctx : Context} {scause stval : BitVec 64} {why : Diverge} {kh : Kernel}
    (run : (trap_handler scause stval).run (trap_entry ctx scause stval k) = .error why kh) (stays : ∀ sp, why ≠ .restore sp) :
    trap ctx scause stval k = .halted why kh := by
  unfold trap
  dsimp only
  rw [run_seq_error run]
  match why with
  | .restore sp => exact absurd rfl (stays sp)
  | .shutdown => rfl
  | .panicked _ => rfl
  | .unexpected_trap _ => rfl
  | .kernel_trap _ _ => rfl

theorem step_call (call : e.action = .ecall) : step e k = trap e.ctx 8 0 k := by
  unfold step
  rw [call]

/-- The system call that an event asks for. -/
def callRun (e : Event) (k : Kernel) (me : Process) : EStateM.Result Diverge Kernel Nat :=
  (dispatch (e.ctx.regs 17).toNat (argument e)).run (entered e.ctx 8 0 k me)

include user running awake

theorem call_run (e : Event) : (trap_handler 8 0).run (trap_entry e.ctx 8 0 k) = callRun e k me := by
  rw [run_trap_handler user running awake]
  rfl

theorem call_ok (call : e.action = .ecall) {r : Nat} {t : Kernel} (run : callRun e k me = .ok r t) :
    ∃ k', step e k = .user k' := by
  rw [step_call call]
  exact trap_ok ((call_run user running awake e).trans run)

theorem call_restore (call : e.action = .ecall) {p : Nat} {t : Kernel} (run : callRun e k me = .error (.restore p) t) :
    ∃ k', step e k = .user k' := by
  rw [step_call call]
  exact trap_restore ((call_run user running awake e).trans run)

theorem call_halt (call : e.action = .ecall) {why : Diverge} {kh : Kernel} (run : callRun e k me = .error why kh)
    (stays : ∀ sp, why ≠ .restore sp) : step e k = .halted why kh := by
  rw [step_call call]
  exact trap_halt ((call_run user running awake e).trans run) stays

/-- A system call that changes the memory and the records of its process comes back with what it has done. -/
theorem call_served (call : e.action = .ecall) {r : Nat} {t : Kernel} {g' : Ledger} {a : Eager.Image} {input : Nat → BitVec 8}
    (run : callRun e k me = .ok r t)
    (serves : Serves exact o.base (stopped e.ctx 8 0 me) (entered e.ctx 8 0 k me) t g g' a input) (heap : a.heap_end ≤ USER_HEAP_LIMIT) :
    ∃ k', step e k = .user k' ∧ InUser exact o k' g' ∧ k'.process_list = t.process_list ∧ k'.current = k.current ∧
      procs k' = procs k ∧ ∀ q, g'.own q = .root → space k'.mm g' q = space t.mm g' q := by
  obtain ⟨inv,home,slot,_,_⟩ := entered_inv user running awake e.ctx 8 0
  have inv' := inv.act serves.kept slot awake serves.good serves.aside (Serves.heap serves heap)
  have home' := Serves.home serves slot home
  obtain ⟨next,slot',same⟩ := serves.kept.mine _ slot
  have current : t.current = k.current := serves.kept.current
  have awake' : next.state = .Running := same.state.trans awake
  obtain ⟨after,spaces⟩ := leaving_user inv' home' (by rw [current]; exact slot') awake' (some r)
  have top : next.kernel_sp = me.kernel_sp := same.kernel_sp
  rw [top] at after spaces
  refine ⟨_,?_,after,(leaving_rest _ _ _).1,(leaving_current _ _ _).trans current,?_,spaces⟩
  · rw [step_call call]
    exact trap_leaves user running ((call_run user running awake e).trans run)
  · rw [procs_leaving,procs_kept serves.kept]
    unfold procs
    rw [show slots (entered e.ctx 8 0 k me).process_list = slots k.process_list from slots_saved (k := trap_entry e.ctx 8 0 k) running]
    rfl

/-- What a system call that came back did. -/
theorem call_handled (call : e.action = .ecall) (waits : WaitsWell k e) (clean : exact = true → Clean k e)
    (run : step e k = .user k') :
    ∃ r kh g' next, Handled exact o (entered e.ctx 8 0 k me) g (stopped e.ctx 8 0 me) (some (callOf e.ctx)) r kh g' ∧
      kh.process_list kh.current = some next ∧ k' = leaving r (next.kernel_sp-TrapFrame.SIZE) kh ∧ answer e.ctx 8 0 k = r ∧
      InUser exact o k' g' ∧ ∀ q, g'.own q = .root → space k'.mm g' q = space kh.mm g' q := by
  have traps : trapOf k e = some (8,0) := by
    unfold trapOf
    rw [call]
  have permitted := permitted_of user running awake traps waits clean
  rw [step_call call] at run
  obtain ⟨inv1,home1,running1,_,_⟩ := entered_inv user running awake e.ctx 8 0
  obtain ⟨r,kh,g',next,handled,slot_next,rfl,same⟩ := trap_handled user running awake permitted run
  obtain ⟨invh,homeh⟩ := handled.keeps inv1 home1 running1 awake
  obtain ⟨next',slot_next',awake_next,_⟩ := handled.next running1 awake
  rw [slot_next,Option.some.injEq] at slot_next'
  rw [← slot_next'] at awake_next
  have asks : asked g me.page_table.root e.ctx 8 0 = some (callOf e.ctx) := by
    unfold asked
    rw [if_neg (by decide),if_pos rfl]
  rw [asks] at handled
  exact ⟨r,kh,g',next,handled,slot_next,rfl,same,leaving_user invh homeh slot_next awake_next r⟩

omit user awake in
theorem slots_entered (ctx : Context) (scause stval : BitVec 64) :
    slots (entered ctx scause stval k me).process_list = slots k.process_list :=
  slots_saved (k := trap_entry ctx scause stval k) running

/-! ### Fork -/

omit user running awake in
theorem callRun_fork (calls : Calls e SYS_FORK) : callRun e k me = sys_fork.run (entered e.ctx 8 0 k me) := by
  rw [callRun,calls.2]
  rfl

/-- A fork comes back when the table is full or there are frames for a root and a stack; otherwise it panics. -/
theorem fork_cases (calls : Calls e SYS_FORK) :
    ((∃ k', step e k = .user k') ∧ (emptySlot (procs k).slots = none ∨ StackFits k.mm)) ∨
    ((∃ p kp, Exhausted p ∧ step e k = .halted (.panicked p) kp) ∧ emptySlot (procs k).slots ≠ none ∧ ¬ StackFits k.mm) := by
  obtain ⟨inv,_,slot,_,_⟩ := entered_inv user.leaky running awake e.ctx 8 0
  have there : me.state ≠ .Gone := by rw [awake]; simp
  have table : find_empty_slot (entered e.ctx 8 0 k me).process_list = emptySlot (procs k).slots := by
    rw [find_empty_slot_eq,slots_entered running]
    rfl
  cases free : emptySlot (procs k).slots with
  | none =>
    rw [free] at table
    refine .inl ⟨call_ok user running awake calls.1 (r := linux_error EAGAIN) (t := entered e.ctx 8 0 k me) ?_,.inl rfl⟩
    rw [callRun_fork calls]
    unfold sys_fork
    rw [run_seq (EStateM.run_get _),table]
    rfl
  | some idx =>
    rw [free] at table
    have pid : alloc_pid.run (entered e.ctx 8 0 k me) =
        .ok k.next_pid { entered e.ctx 8 0 k me with next_pid := k.next_pid+1 } := rfl
    rcases fork_memory_spec inv.good (stopped e.ctx 8 0 me).page_table (inv.link.root slot there) (by simp) with
      ⟨short,p,m,exhausted,failed⟩ | ⟨c,s,mm,g',fits,made,_⟩
    · refine .inr ⟨⟨p,{ entered e.ctx 8 0 k me with next_pid := k.next_pid+1, mm := m },exhausted,
        call_halt user running awake calls.1 ?_ (by simp)⟩,by simp,short⟩
      rw [callRun_fork calls]
      unfold sys_fork
      rw [run_seq (EStateM.run_get _),table]
      dsimp only
      rw [run_seq pid,run_seq (run_current (k := { entered e.ctx 8 0 k me with next_pid := k.next_pid+1 }) slot),
        run_seq_error (e := .panicked p) (t := { entered e.ctx 8 0 k me with next_pid := k.next_pid+1, mm := m })]
      rw [run_onMm]
      simp only [failed]
    · refine .inl ⟨?_,.inr fits⟩
      refine call_ok user running awake calls.1 (r := k.next_pid) (t := { entered e.ctx 8 0 k me with
        next_pid := k.next_pid+1, mm := mm, process_list := Function.update (entered e.ctx 8 0 k me).process_list idx
          (some (forkChild (stopped e.ctx 8 0 me) k.next_pid c s)) }) ?_
      rw [callRun_fork calls]
      unfold sys_fork
      rw [run_seq (EStateM.run_get _),table]
      dsimp only
      rw [run_seq pid,run_seq (run_current (k := { entered e.ctx 8 0 k me with next_pid := k.next_pid+1 }) slot),
        run_seq (onMm_ok (k := { entered e.ctx 8 0 k me with next_pid := k.next_pid+1 }) made),run_seq (EStateM.run_modify _ _)]
      rfl

omit user awake in
theorem procs_entered (ctx : Context) (scause stval : BitVec 64) : procs (entered ctx scause stval k me) = procs k := by
  unfold procs
  rw [slots_entered running]
  rfl

/-- What a fork with a free slot does. -/
theorem fork_next (calls : Calls e SYS_FORK) (clean : exact = true → Clean k e) (run : step e k = .user k')
    {idx : Fin MAX_PROCESSES} (free : emptySlot (procs k).slots = some idx) :
    ∃ c s mm g', Forked exact o.base me.page_table.root c s (entered e.ctx 8 0 k me).mm mm g g' ∧ InUser exact o k' g' ∧
      procs k' = { procs k with
        slots := Function.update (procs k).slots idx (some ⟨k.next_pid,me.pid,.Ready⟩), next_pid := k.next_pid+1 } ∧
      k'.process_list = Function.update (entered e.ctx 8 0 k me).process_list idx
        (some (forkChild (stopped e.ctx 8 0 me) k.next_pid c s)) ∧
      k'.mm.next_frame = mm.next_frame ∧ k'.mm.free_list_head = mm.free_list_head ∧ answer e.ctx 8 0 k = some k.next_pid ∧
      ∀ q, g'.own q = .root → space k'.mm g' q = space mm g' q := by
  have waits : WaitsWell k e := fun other => by
    have both := calls.2.symm.trans other.2
    cases both
  obtain ⟨r,kh,g',next,handled,slot_next,rfl,same,after,spaces⟩ := call_handled user running awake calls.1 waits clean run
  have table : find_empty_slot (entered e.ctx 8 0 k me).process_list = some idx := by
    rw [find_empty_slot_eq,slots_entered running]
    exact free
  unfold callOf at handled
  rw [calls.2] at handled
  cases handled with
  | call _ not_fork _ _ => exact absurd rfl not_fork
  | full none =>
    rw [table] at none
    cases none
  | exit exits => exact absurd exits (by decide)
  | @fork _ idx' c s mm _ free' forked =>
    rw [table,Option.some.injEq] at free'
    subst free'
    refine ⟨c,s,mm,g',forked,after,?_,(leaving_rest _ _ _).1,?_,?_,same,spaces⟩
    · rw [procs_leaving]
      unfold procs
      dsimp only
      rw [slots_update,slots_entered running]
      rfl
    · unfold leaving trap_exit_restore trap_return
      dsimp only
      split <;> rfl
    · unfold leaving trap_exit_restore trap_return
      dsimp only
      split <;> rfl

/-! ### Wait -/

omit user running awake in
theorem callRun_wait (calls : Calls e SYS_WAIT) : callRun e k me = (sys_wait (argument e 0)).run (entered e.ctx 8 0 k me) := by
  rw [callRun,calls.2]
  rfl

omit user running awake in
theorem waits_null (null : argument e 0 = 0) : WaitsWell k e := fun _ _ _ => .inl null

/-- A wait with a null pointer reaps a zombie when there is one. -/
theorem wait_reaps (calls : Calls e SYS_WAIT) (null : argument e 0 = 0) {idx : Fin MAX_PROCESSES}
    (found : zombieSlot (procs k).slots me.pid = some idx) : ∃ k', step e k = .user k' := by
  obtain ⟨inv,_,slot,_,_⟩ := entered_inv user.leaky running awake e.ctx 8 0
  have there : me.state ≠ .Gone := by rw [awake]; simp
  have find : (List.finRange MAX_PROCESSES).find? (zombie_child (entered e.ctx 8 0 k me).process_list me.pid) = some idx := by
    rw [zombie_child_eq,slots_entered running]
    exact found
  obtain ⟨child,code,slotC,mine,dead⟩ := zombie_child_some (List.find?_some find)
  have thereC : child.state ≠ .Gone := by rw [dead]; simp
  obtain ⟨mm,g',freed,_,_⟩ := free_user_pt_resources_spec inv.good child (inv.link.root slotC thereC)
    (retire_zombie inv slotC dead) (inv.link.stack slotC thereC)
  refine call_ok user running awake calls.1 (r := child.pid) (t := { entered e.ctx 8 0 k me with
    mm := mm
    process_list := Function.update (entered e.ctx 8 0 k me).process_list idx (some { child with state := .Gone }) }) ?_
  rw [callRun_wait calls,null]
  unfold sys_wait
  rw [run_seq (run_current slot),run_seq (EStateM.run_get _)]
  dsimp only
  rw [show (stopped e.ctx 8 0 me).pid = me.pid from rfl,find]
  unfold reap
  dsimp only
  rw [run_seq (EStateM.run_get _),slotC]
  dsimp only
  have nothing_stored : (wait_status 0 (exit_code child)).run (entered e.ctx 8 0 k me) = .ok ⟨⟩ (entered e.ctx 8 0 k me) := rfl
  rw [run_seq nothing_stored,run_seq (onMm_ok freed),run_seq (EStateM.run_modify _ _)]
  rfl

/-- What a wait that finds a zombie does. -/
theorem reap_next (calls : Calls e SYS_WAIT) (waits : WaitsWell k e) (clean : exact = true → Clean k e)
    (run : step e k = .user k') {idx : Fin MAX_PROCESSES} (found : zombieSlot (procs k).slots me.pid = some idx) :
    ∃ child code k1 g1 mm g', k.process_list idx = some child ∧ child.parent_pid = me.pid ∧ child.state = .Zombie code ∧
      Serves exact o.base (stopped e.ctx 8 0 me) (entered e.ctx 8 0 k me) k1 g g1
        { imageOf (entered e.ctx 8 0 k me).mm g (stopped e.ctx 8 0 me) with
          pages := Eager.deliver (argument e 0) code (space (entered e.ctx 8 0 k me).mm g me.page_table.root) } k.input ∧
      Freeing exact o.base k1.mm (retire g1 child.page_table.root)
        (Belongs g1 child.page_table.root child.kernel_stack_frame) mm g' ∧
      InUser exact o k' g' ∧
      procs k' = { procs k with slots := Function.update (procs k).slots idx (some ⟨child.pid,child.parent_pid,.Gone⟩) } ∧
      answer e.ctx 8 0 k = some child.pid := by
  obtain ⟨r,kh,g',next,handled,slot_next,rfl,same,after,_⟩ := call_handled user running awake calls.1 waits clean run
  have find : (List.finRange MAX_PROCESSES).find? (zombie_child (entered e.ctx 8 0 k me).process_list me.pid) = some idx := by
    rw [zombie_child_eq,slots_entered running]
    exact found
  obtain ⟨child0,code0,slot0,mine0,dead0⟩ := zombie_child_some (List.find?_some find)
  unfold callOf at handled
  rw [calls.2] at handled
  cases handled with
  | call _ _ not_wait _ => exact absurd rfl not_wait
  | exit exits => exact absurd exits (by decide)
  | childless none =>
    have gone := none idx _ (slots_some slot0) mine0
    rw [show (header child0).state = child0.state from rfl,dead0] at gone
    cases gone
  | block clean _ _ _ _ _ _ => exact absurd ⟨code0,dead0⟩ (clean idx _ (slots_some slot0) mine0)
  | @reap _ idx' child code k1 g1 _ mm slotC mine dead serves good freeing found' =>
    have equal : some idx = some idx' := find.symm.trans found'
    rw [Option.some.injEq] at equal
    subst equal
    have other : idx ≠ k.current := by
      rintro rfl
      rw [(entered_inv user running awake e.ctx 8 0).2.2.1,Option.some.injEq] at slotC
      rw [← slotC,show (stopped e.ctx 8 0 me).state = me.state from rfl,awake] at dead
      cases dead
    have slotK : k.process_list idx = some child := by rw [← slotC]; exact (Function.update_of_ne other _ _).symm
    refine ⟨child,code,k1,g1,mm,g',slotK,mine,dead,serves,freeing,after,?_,same⟩
    have kept : procs k1 = procs k := by rw [procs_kept serves.kept,procs_entered running]
    rw [procs_leaving]
    unfold procs at kept ⊢
    dsimp only
    rw [slots_update]
    simp only [System.mk.injEq] at kept ⊢
    obtain ⟨table,current,next_pid⟩ := kept
    rw [table]
    exact ⟨rfl,current,next_pid⟩

omit user running awake in
/-- The scheduler goes on with the process that it picks. -/
theorem schedule_picks {k : Kernel} {cur : Process} (running : k.process_list k.current = some cur) (synced : Synced k cur)
    {j : Fin MAX_PROCESSES} (picked : nextSlot (slots k.process_list) k.current = some j) :
    ∃ sp kh, (schedule : K Nat).run k = .error (.restore sp) kh := by
  rw [← pick_next_eq] at picked
  rcases schedule_cases running with ⟨_,idle⟩ | ⟨j',next,run,_,_,_⟩
  · rw [saved_synced running synced] at idle
    obtain ⟨p,slot,ready⟩ := pick_next_some picked
    exact absurd ready (idle j p slot)
  · exact ⟨_,_,run Nat⟩

omit user running awake in
/-- The scheduler stops the machine when nobody is ready. -/
theorem schedule_stops {k : Kernel} {cur : Process} (running : k.process_list k.current = some cur) (synced : Synced k cur)
    (nobody : nextSlot (slots k.process_list) k.current = none) : ∃ kh, (schedule : K Nat).run k = .error .shutdown kh := by
  rw [← pick_next_eq] at nobody
  rcases schedule_cases running with ⟨run,_⟩ | ⟨j,next,_,_,_,picked⟩
  · exact ⟨_,run Nat⟩
  · rw [saved_synced running synced,nobody] at picked
    cases picked

/-- A wait without a zombie among the children of the caller, one of which is alive, switches to a process that is
    ready. -/
theorem wait_blocks (calls : Calls e SYS_WAIT) (none : zombieSlot (procs k).slots me.pid = none) {i j : Fin MAX_PROCESSES}
    {child : Header} (slot : (procs k).slots i = some child) (mine : child.parent_pid = me.pid) (live : Live child)
    (picked : nextSlot (blockSlots (procs k) (header me)) k.current = some j) : ∃ k', step e k = .user k' := by
  obtain ⟨_,_,here,synced,_⟩ := entered_inv user running awake e.ctx 8 0
  have find : (List.finRange MAX_PROCESSES).find? (zombie_child (entered e.ctx 8 0 k me).process_list me.pid) = Option.none := by
    rw [zombie_child_eq,slots_entered running]
    exact none
  obtain ⟨p,slotP,rfl⟩ := slots_inv (show slots (entered e.ctx 8 0 k me).process_list i = some child by
    rw [slots_entered running]; exact slot)
  have some_live : (List.finRange MAX_PROCESSES).any (live_child (entered e.ctx 8 0 k me).process_list me.pid) = true := by
    refine List.any_eq_true.mpr ⟨i,List.mem_finRange i,?_⟩
    unfold live_child
    rw [slotP]
    have state : p.state = .Ready ∨ p.state = .Running ∨ p.state = .Blocked := live
    have parent : p.parent_pid = me.pid := mine
    rcases state with is | is | is <;> simp [is,parent]
  have stops : (blocked (entered e.ctx 8 0 k me) (stopped e.ctx 8 0 me)).process_list k.current =
      some { stopped e.ctx 8 0 me with state := .Blocked } := Function.update_self _ _ _
  have table : slots (blocked (entered e.ctx 8 0 k me) (stopped e.ctx 8 0 me)).process_list =
      blockSlots (procs k) (header me) := by
    show slots (Function.update _ _ _) = _
    rw [slots_update,slots_entered running]
    rfl
  obtain ⟨sp,kh,run⟩ := schedule_picks (k := blocked (entered e.ctx 8 0 k me) (stopped e.ctx 8 0 me)) stops synced (j := j) (by
    rw [table]
    exact picked)
  refine call_restore user running awake calls.1 (p := sp) (t := kh) ?_
  rw [callRun_wait calls]
  unfold sys_wait
  rw [run_seq (run_current here),run_seq (EStateM.run_get _)]
  dsimp only
  rw [show (stopped e.ctx 8 0 me).pid = me.pid from rfl,find]
  dsimp only
  rw [if_pos some_live,run_seq (run_update_current here _)]
  exact run

/-- What a wait that blocks does. -/
theorem block_next (calls : Calls e SYS_WAIT) (waits : WaitsWell k e) (clean : exact = true → Clean k e)
    (run : step e k = .user k') (none : zombieSlot (procs k).slots me.pid = none) {i : Fin MAX_PROCESSES}
    {child : Header} (slot : (procs k).slots i = some child) (mine : child.parent_pid = me.pid) (live : Live child) :
    ∃ j next, nextSlot (blockSlots (procs k) (header me)) k.current = some j ∧
      blockSlots (procs k) (header me) j = some next ∧
      procs k' = switch (procs k) (blockSlots (procs k) (header me)) j next ∧ InUser exact o k' g ∧
      answer e.ctx 8 0 k = Option.none := by
  obtain ⟨r,kh,g',next,handled,slot_next,rfl,same,after,_⟩ := call_handled user running awake calls.1 waits clean run
  have find : (List.finRange MAX_PROCESSES).find? (zombie_child (entered e.ctx 8 0 k me).process_list me.pid) = Option.none := by
    rw [zombie_child_eq,slots_entered running]
    exact none
  have slot' : slots (entered e.ctx 8 0 k me).process_list i = some child := by
    rw [slots_entered running]
    exact slot
  have table : slots (blocked (entered e.ctx 8 0 k me) (stopped e.ctx 8 0 me)).process_list =
      blockSlots (procs k) (header me) := by
    show slots (Function.update _ _ _) = _
    rw [slots_update,slots_entered running]
    rfl
  unfold callOf at handled
  rw [calls.2] at handled
  cases handled with
  | call _ _ not_wait _ => exact absurd rfl not_wait
  | exit exits => exact absurd exits (by decide)
  | childless none =>
    exact absurd (none i _ slot' mine) (live_not_gone live)
  | @reap _ idx' child code k1 g1 _ mm slotC mine dead serves good freeing found' =>
    rw [show (stopped e.ctx 8 0 me).pid = me.pid from rfl,find] at found'
    cases found'
  | @block _ _ j _ next' _ _ _ _ chosen ready picked =>
    rw [pick_next_eq,table] at picked
    have found := slots_some chosen
    rw [table] at found
    refine ⟨j,header next',picked,found,?_,after,same⟩
    rw [procs_leaving,procs_resumed,table,← procs_entered running e.ctx 8 0]
    rfl

/-! ### Exit -/

omit user running awake in
theorem callRun_exit (exits : Calls e SYS_EXIT ∨ Calls e SYS_EXIT_GROUP) :
    callRun e k me = (sys_exit (argument e 0) : K Nat).run (entered e.ctx 8 0 k me) := by
  rw [callRun,dispatch_exit]
  exact exits.imp (fun calls => calls.2) fun calls => calls.2

/-- An exit switches to a process that is ready. -/
theorem exit_goes (exits : Calls e SYS_EXIT ∨ Calls e SYS_EXIT_GROUP) {j : Fin MAX_PROCESSES}
    (picked : nextSlot (dieSlots (procs k) (header me) (argument e 0)) k.current = some j) : ∃ k', step e k = .user k' := by
  obtain ⟨inv,_,here,synced,_⟩ := entered_inv user running awake e.ctx 8 0
  obtain ⟨mm,g',acts,run⟩ := run_sys_exit inv here awake Nat (argument e 0)
  obtain ⟨cur,slot,synced'⟩ := ended_synced inv here awake synced _ acts.aside.stack_bytes (entered e.ctx 8 0 k me).output (argument e 0)
  have table : slots (ended (entered e.ctx 8 0 k me) (stopped e.ctx 8 0 me) mm (entered e.ctx 8 0 k me).output
      (argument e 0)).process_list = dieSlots (procs k) (header me) (argument e 0) := by
    rw [slots_ended,procs_entered running]
    rfl
  obtain ⟨sp,kh,goes⟩ := schedule_picks slot synced' (j := j) (by rw [table]; exact picked)
  refine call_restore user running awake (exits.elim (fun calls => calls.1) fun calls => calls.1) (p := sp) (t := kh) ?_
  rw [callRun_exit exits,run]
  exact goes

/-- An exit after which nobody is ready stops the machine. -/
theorem exit_stops (exits : Calls e SYS_EXIT ∨ Calls e SYS_EXIT_GROUP)
    (nobody : nextSlot (dieSlots (procs k) (header me) (argument e 0)) k.current = none) :
    ∃ kh, step e k = .halted .shutdown kh := by
  obtain ⟨inv,_,here,synced,_⟩ := entered_inv user running awake e.ctx 8 0
  obtain ⟨mm,g',acts,run⟩ := run_sys_exit inv here awake Nat (argument e 0)
  obtain ⟨cur,slot,synced'⟩ := ended_synced inv here awake synced _ acts.aside.stack_bytes (entered e.ctx 8 0 k me).output (argument e 0)
  have table : slots (ended (entered e.ctx 8 0 k me) (stopped e.ctx 8 0 me) mm (entered e.ctx 8 0 k me).output
      (argument e 0)).process_list = dieSlots (procs k) (header me) (argument e 0) := by
    rw [slots_ended,procs_entered running]
    rfl
  obtain ⟨kh,stops⟩ := schedule_stops slot synced' (by rw [table]; exact nobody)
  refine ⟨kh,call_halt user running awake (exits.elim (fun calls => calls.1) fun calls => calls.1) ?_ (by simp)⟩
  rw [callRun_exit exits,run]
  exact stops

/-- What an exit does. -/
theorem exit_next (exits : Calls e SYS_EXIT ∨ Calls e SYS_EXIT_GROUP) (clean : exact = true → Clean k e)
    (run : step e k = .user k') :
    ∃ mm g' j next, Acts exact o.base me.page_table.root (entered e.ctx 8 0 k me).mm mm g g' (fun _ => none) ∧
      nextSlot (dieSlots (procs k) (header me) (argument e 0)) k.current = some j ∧
      dieSlots (procs k) (header me) (argument e 0) j = some next ∧
      procs k' = switch (procs k) (dieSlots (procs k) (header me) (argument e 0)) j next ∧ InUser exact o k' g' := by
  have call : e.action = .ecall := exits.elim (fun calls => calls.1) fun calls => calls.1
  have number : (e.ctx.regs 17).toNat = SYS_EXIT ∨ (e.ctx.regs 17).toNat = SYS_EXIT_GROUP :=
    exits.imp (fun calls => calls.2) fun calls => calls.2
  have waits : WaitsWell k e := fun other => by
    rcases number with is | is <;> (have both := is.symm.trans other.2; cases both)
  obtain ⟨r,kh,g',next,handled,slot_next,rfl,same,after,_⟩ := call_handled user running awake call waits clean run
  unfold callOf at handled
  generalize (e.ctx.regs 17).toNat = n at handled number
  cases handled with
  | call returns _ _ _ => exact absurd number returns
  | full => exact absurd number (by decide)
  | fork => exact absurd number (by decide)
  | childless => exact absurd number (by decide)
  | reap => exact absurd number (by decide)
  | block => exact absurd number (by decide)
  | @exit _ _ mm _ j next' _ acts chosen ready picked =>
    have table : slots (ended (entered e.ctx 8 0 k me) (stopped e.ctx 8 0 me) mm (entered e.ctx 8 0 k me).output
        (argument e 0)).process_list = dieSlots (procs k) (header me) (argument e 0) := by
      rw [slots_ended,procs_entered running]
      rfl
    rw [pick_next_eq] at picked
    have found := slots_some chosen
    refine ⟨mm,g',j,header next',acts,?_,?_,?_,after⟩
    · rw [← table]
      exact picked
    · rw [← table]
      exact found
    · rw [procs_leaving,procs_resumed,← table]
      show switch _ (slots (ended _ _ _ _ _).process_list) _ _ = _
      rw [show procs (ended (entered e.ctx 8 0 k me) (stopped e.ctx 8 0 me) mm (entered e.ctx 8 0 k me).output
        (e.ctx.regs ⟨10+(0 : Fin 6).val,by decide⟩).toNat) = { procs k with slots := dieSlots (procs k) (header me) (argument e 0) } by
        rw [procs_ended,procs_entered running]; rfl]
      rfl

end

/-! ### Store faults -/

section
variable {exact : Bool} {o : Origin} {k : Kernel} {g : Ledger} {me : Process}
  (user : InUser exact o k g) (running : k.process_list k.current = some me) (awake : me.state = .Running)

include user running awake

/-- A store fault on a page that is copied on write is resolved, and the store passes when it is tried again. -/
theorem cow_fault_resolved (ctx : Context) (va : BitVec 64) (value : BitVec 8)
    (cow : CowPage g me.page_table.root (pageOf va.toNat))
    (low : canonical va.toNat = true) (fault : translate k.hart k.mm.mem .user .store va.toNat = none) (frames : 0 < room g) :
    ∃ t k' g', (page_fault_handler 15 va).run (entered ctx 15 va k me) = .ok 0 t ∧
      step ⟨ctx,.store va value⟩ k = .user k' ∧ k'.current = k.current ∧
      (translate k'.hart k'.mm.mem .user .store va.toNat).isSome ∧ InUser exact o k' g' ∧
      k'.process_list = (entered ctx 15 va k me).process_list ∧ procs k' = procs k := by
  obtain ⟨inv,home,slot,_,_⟩ := entered_inv user running awake ctx 15 va
  have there : (stopped ctx 15 va me).state ≠ .Gone := by
    rw [show (stopped ctx 15 va me).state = .Running from awake]
    simp
  have isRoot := inv.link.root slot there
  rcases cow_entry_spec inv.good (stopped ctx 15 va me).page_table isRoot va.toNat with ⟨e,entry,leaf,marked,place,found⟩ | ⟨absent,_⟩
  · rcases handle_cow_fault_spec inv.good leaf marked place with ⟨⟨full,_⟩,_⟩ | ⟨m,g',done,resolves⟩
    · omega
    · have serves := Serves.of_acts (k := entered ctx 15 va k me) slot ⟨resolves.good,resolves.aside,resolves.same⟩
      have handled : Handled exact o (entered ctx 15 va k me) g (stopped ctx 15 va me) none (some 0) _ g' := .quiet serves
      obtain ⟨inv',home'⟩ := handled.keeps inv home slot awake
      obtain ⟨next,slot',awake',_⟩ := handled.next slot awake
      have run : (page_fault_handler 15 va).run (entered ctx 15 va k me) =
          .ok 0 { entered ctx 15 va k me with mm := m } := by
        unfold page_fault_handler
        dsimp only
        rw [if_neg (by decide),run_seq (run_current slot)]
        rw [run_seq (onMm_ok (k := entered ctx 15 va k me) found)]
        dsimp only
        rw [run_seq (onMm_ok (k := entered ctx 15 va k me) done)]
        rfl
      have trapped : trapOf k ⟨ctx,.store va value⟩ = some (15,va) := by
        unfold trapOf
        simp [fault]
      have same : next = stopped ctx 15 va me := Option.some.inj (slot'.symm.trans slot)
      subst same
      have after := leaving_user inv' home' slot' awake (some 0)
      refine ⟨_,leaving (some 0) ((stopped ctx 15 va me).kernel_sp-TrapFrame.SIZE) { entered ctx 15 va k me with mm := m },g',
        run,?_,?_,?_,after.1,(leaving_rest _ _ _).1,(procs_leaving _ _ _).trans (procs_entered running ctx 15 va)⟩
      · have handler := run_trap_handler user running awake ctx 15 va
        rw [if_neg (by decide),if_neg (by decide),if_pos (by simp)] at handler
        rw [step_eq,trapped]
        exact trap_leaves user running (handler.trans run)
      · exact leaving_current ..
      · obtain ⟨d,written,writable⟩ := resolves.writable
        have shape := resolves.good.sound.shape written
        have plain : is_cow d = false := by
          by_contra yes
          rw [Bool.not_eq_false] at yes
          rw [(shape.cow yes).2] at writable
          cases writable
        have back : (leaving (some 0) ((stopped ctx 15 va me).kernel_sp-TrapFrame.SIZE)
            { entered ctx 15 va k me with mm := m }).process_list k.current = some (stopped ctx 15 va me) := by
          rw [(leaving_rest _ _ _).1]
          exact slot
        have home'' := after.1.home (stopped ctx 15 va me) (by rw [leaving_current]; exact back)
        rw [translate_leaf after.1.inv.good home'' written,if_pos]
        · rfl
        · rw [low,plain,permits]
          simp [writable,written.user]
  · exact absurd cow absent

end

/-! ### Bystanders -/

section
variable {exact : Bool} {o : Origin} {k k' : Kernel} {g g' : Ledger} {me : Process}

theorem shuffled_resumed {j : Fin MAX_PROCESSES} {next : Process} (chosen : k.process_list j = some next)
    (ready : next.state = .Ready) : Shuffled k.process_list (resumed k j next).process_list :=
  shuffled_update chosen (kin_state (by rw [ready]; simp) (by simp))

theorem shuffled_blocked (running : k.process_list k.current = some me) (awake : me.state = .Running) :
    Shuffled k.process_list (blocked k me).process_list :=
  shuffled_update running (kin_state (by rw [awake]; simp) (by simp))

theorem kin_page_table {p q : Process} (kin : Kin p q) : q.page_table = p.page_table := by rw [kin.same]

/-- A trap leaves the pages of every other live process as they are. -/
theorem handled_bystander {act : Option Eager.Action} {r : Option Nat} (handled : Handled exact o k g me act r k' g')
    (inv : Inv exact o k g) (running : k.process_list k.current = some me) (awake : me.state = .Running)
    {i : Fin MAX_PROCESSES} {p : Process} (other : i ≠ k.current) (slot : k.process_list i = some p) (live : Live (header p)) :
    ∃ p', k'.process_list i = some p' ∧ Kin p p' ∧
      space k'.mm g' p.page_table.root = space k.mm g p.page_table.root := by
  have there : p.state ≠ .Gone := live_there live
  have thereMe : me.state ≠ .Gone := by rw [awake]; simp
  have isRoot := inv.link.root slot there
  have apart : p.page_table.root ≠ me.page_table.root := fun same => other (inv.link.own_root slot running there thereMe same)
  cases handled with
  | quiet serves => exact ⟨p,by rw [serves.kept.others i other]; exact slot,Kin.refl p,serves.aside.spaces _ apart isRoot⟩
  | call _ _ _ serves => exact ⟨p,by rw [serves.kept.others i other]; exact slot,Kin.refl p,serves.aside.spaces _ apart isRoot⟩
  | full none => exact ⟨p,slot,Kin.refl p,rfl⟩
  | childless none => exact ⟨p,slot,Kin.refl p,rfl⟩
  | @fork args idx c s mm _ free forked =>
    have away : i ≠ idx := by
      rintro rfl
      exact there (find_empty_slot_some free slot)
    refine ⟨p,?_,Kin.refl p,forked.spaces _ isRoot⟩
    dsimp only
    rw [Function.update_of_ne away]
    exact slot
  | @reap args idx child code k1 g1 _ mm slotC mine dead serves good freeing _ =>
    have away : i ≠ idx := by
      rintro rfl
      rw [slot,Option.some.injEq] at slotC
      rw [← slotC] at dead
      have alive : p.state = .Ready ∨ p.state = .Running ∨ p.state = .Blocked := live
      rcases alive with h | h | h <;> rw [dead] at h <;> cases h
    have currentC : idx ≠ k.current := by
      rintro rfl
      rw [running,Option.some.injEq] at slotC
      rw [← slotC,awake] at dead
      cases dead
    have slot1 : k1.process_list i = some p := by rw [serves.kept.others i other]; exact slot
    have slotC1 : k1.process_list idx = some child := by rw [serves.kept.others idx currentC]; exact slotC
    have inv1 := inv.act serves.kept running awake serves.good serves.aside
      (Serves.heap serves (a := { imageOf k.mm g me with pages := _ }) (inv.heaps _ me running).2)
    refine ⟨p,?_,Kin.refl p,?_⟩
    · dsimp only
      rw [Function.update_of_ne away]
      exact slot1
    · rw [freeing.space inv1.good (inv1.link.root slotC1 (by rw [dead]; simp)) (inv1.link.root slot1 there)]
      exact serves.aside.spaces _ apart isRoot
  | @block args _ j child next clean _ mine _ chosen ready _ =>
    obtain ⟨p',slot',kin⟩ := ((shuffled_blocked running awake).trans (shuffled_resumed chosen ready)).forth slot
    exact ⟨p',slot',kin,(Inv.resume (Inv.block inv running awake) chosen ready).2.2.1 _ isRoot⟩
  | @exit number args mm _ j next exits acts chosen ready _ =>
    obtain ⟨p',slot',kin⟩ := ((shuffled_ended running thereMe mm k.output (args 0)).trans (shuffled_resumed chosen ready)).forth slot
    refine ⟨p',slot',kin,?_⟩
    rw [(Inv.resume (Inv.ended inv running awake acts) chosen ready).2.2.1 _ ((acts.aside.roots _).mpr isRoot)]
    exact acts.aside.spaces _ apart isRoot
  | @killed output j next leaky chosen ready _ =>
    obtain ⟨p',slot',kin⟩ := ((shuffled_ended running thereMe k.mm output 1).trans (shuffled_resumed chosen ready)).forth slot
    exact ⟨p',slot',kin,(Inv.resume (Inv.killed inv running awake leaky) chosen ready).2.2.1 _ isRoot⟩

/-- A step leaves the pages of every other live process as they are. -/
theorem step_bystander {e : Event} (user : InUser exact o k g) (running : k.process_list k.current = some me)
    (awake : me.state = .Running) (waits : WaitsWell k e) (clean : exact = true → Clean k e) (run : step e k = .user k')
    {i : Fin MAX_PROCESSES} {p : Process} (other : i ≠ k.current) (slot : k.process_list i = some p) (live : Live (header p)) :
    ∃ p', k'.process_list i = some p' ∧ Kin p p' ∧ pagesOf k'.mm p.page_table = pagesOf k.mm p.page_table := by
  have there : p.state ≠ .Gone := live_there live
  have isRoot := user.inv.link.root slot there
  have thereMe : me.state ≠ .Gone := by rw [awake]; simp
  have apart : p.page_table.root ≠ me.page_table.root :=
    fun same => other (user.inv.link.own_root slot running there thereMe same)
  rcases step_split user running awake run waits clean with ⟨silent,rfl⟩ | ⟨scause,stval,traps,run,_,permitted⟩
  · by_cases store : ∃ va value, e.action = .store va value
    · obtain ⟨va,value,action⟩ := store
      obtain ⟨acts,mm,after⟩ := store_acts user running awake va value action silent
      refine ⟨p,by rw [after]; exact slot,Kin.refl p,?_⟩
      rw [pagesOf_eq acts.good _ ((acts.aside.roots _).mpr isRoot),pagesOf_eq user.inv.good _ isRoot]
      exact acts.aside.spaces _ apart isRoot
    · rw [accessed_idle fun va value action => store ⟨va,value,action⟩]
      exact ⟨p,slot,Kin.refl p,rfl⟩
  · obtain ⟨inv1,home1,running1,_,spaces1⟩ := entered_inv user running awake e.ctx scause stval
    obtain ⟨r,kh,g',next,handled,slot_next,rfl,_⟩ := trap_handled user running awake permitted run
    have slot1 : (entered e.ctx scause stval k me).process_list i = some p := by
      show Function.update k.process_list k.current _ i = some p
      rw [Function.update_of_ne other]
      exact slot
    obtain ⟨p',slot',kin,same⟩ := handled_bystander handled inv1 running1 awake other slot1 live
    obtain ⟨invh,homeh⟩ := handled.keeps inv1 home1 running1 awake
    obtain ⟨next',slot_next',awake_next,_⟩ := handled.next running1 awake
    rw [slot_next,Option.some.injEq] at slot_next'
    rw [← slot_next'] at awake_next
    obtain ⟨after,spaces2⟩ := leaving_user invh homeh slot_next awake_next r
    refine ⟨p',by rw [(leaving_rest _ _ _).1]; exact slot',kin,?_⟩
    have isRoot' : g'.own p.page_table.root = .root := by
      have := invh.link.root slot' (mt kin.gone.mp there)
      rwa [kin_page_table kin] at this
    rw [pagesOf_eq after.inv.good _ isRoot',pagesOf_eq user.inv.good _ isRoot,spaces2 _ isRoot',same,spaces1 _ isRoot]

/-- A wait with a null status pointer leaves the pages of its process as they are. -/
theorem handled_null_wait {args : Fin 6 → Nat} {r : Option Nat} (handled : Handled exact o k g me (some (.call SYS_WAIT args)) r k' g')
    (null : args 0 = 0) (inv : Inv exact o k g) (running : k.process_list k.current = some me) (awake : me.state = .Running) :
    ∃ me', k'.process_list k.current = some me' ∧ me'.state ≠ .Gone ∧ me'.page_table = me.page_table ∧
      space k'.mm g' me.page_table.root = space k.mm g me.page_table.root := by
  have there : me.state ≠ .Gone := by rw [awake]; simp
  have isRoot := inv.link.root running there
  cases handled with
  | call _ _ not_wait _ => exact absurd rfl not_wait
  | exit exits => exact absurd exits (by decide)
  | childless none => exact ⟨me,running,there,rfl,rfl⟩
  | @reap _ idx child code k1 g1 _ mm slotC mine dead serves good freeing _ =>
    have other : idx ≠ k.current := by
      rintro rfl
      rw [running,Option.some.injEq] at slotC
      rw [← slotC,awake] at dead
      cases dead
    obtain ⟨me',slot',same⟩ := serves.kept.mine me running
    have table : me'.page_table = me.page_table := same.page_table
    obtain ⟨me2,slot2,image⟩ := serves.image
    obtain rfl : me' = me2 := Option.some.inj (slot'.symm.trans slot2)
    have slotC1 : k1.process_list idx = some child := by rw [serves.kept.others idx other]; exact slotC
    have inv1 := inv.act serves.kept running awake serves.good serves.aside
      (Serves.heap serves (a := { imageOf k.mm g me with pages := _ }) (inv.heaps _ me running).2)
    refine ⟨me',?_,by rw [same.state]; exact there,table,?_⟩
    · dsimp only
      rw [Function.update_of_ne (Ne.symm other)]
      exact slot'
    · rw [freeing.space inv1.good (inv1.link.root slotC1 (by rw [dead]; simp)) ((serves.aside.roots _).mpr isRoot),← table]
      have pages : space k1.mm g1 me'.page_table.root = Eager.deliver (args 0) code (space k.mm g me.page_table.root) :=
        congrArg Eager.Image.pages image
      rw [Eager.deliver,if_pos null] at pages
      rw [pages,table]
  | @block _ _ j child next clean _ mine _ chosen ready _ =>
    obtain ⟨me',slot',kin⟩ := ((shuffled_blocked running awake).trans (shuffled_resumed chosen ready)).forth running
    exact ⟨me',slot',mt kin.gone.mp there,kin_page_table kin,(Inv.resume (Inv.block inv running awake) chosen ready).2.2.1 _ isRoot⟩

theorem null_wait_keeps {e : Event} (user : InUser exact o k g) (running : k.process_list k.current = some me)
    (awake : me.state = .Running) (calls : Calls e SYS_WAIT) (null : argument e 0 = 0) (clean : exact = true → Clean k e)
    (run : step e k = .user k') :
    ∃ me', k'.process_list k.current = some me' ∧ me'.page_table = me.page_table ∧
      pagesOf k'.mm me.page_table = pagesOf k.mm me.page_table := by
  obtain ⟨inv,_,here,_,spaces⟩ := entered_inv user running awake e.ctx 8 0
  obtain ⟨r,kh,g',next,handled,_,rfl,_,after,kept⟩ := call_handled user running awake calls.1 (waits_null null) clean run
  unfold callOf at handled
  rw [calls.2] at handled
  obtain ⟨me',slot',there,table,same⟩ := handled_null_wait handled null inv here awake
  have isRoot := me_root user running awake
  have slot : (leaving r (next.kernel_sp-TrapFrame.SIZE) kh).process_list k.current = some me' := by
    rw [(leaving_rest _ _ _).1]
    exact slot'
  have isRoot' : g'.own me.page_table.root = .root := by
    have root := after.inv.link.root slot there
    rwa [table] at root
  refine ⟨me',slot,table,?_⟩
  rw [pagesOf_eq after.inv.good _ isRoot',pagesOf_eq user.inv.good _ isRoot,kept _ isRoot']
  exact same.trans (spaces _ isRoot)

end

end Unit00.Progress
