import Unit00.Machine
import Unit00.Lifecycle

/-!
The kernel refines the life cycle of processes: one event of the machine is one
step of `Unit00.Lifecycle`, whatever the kernel does to memory on the way. Most
of the kernel touches neither pids nor states; that part is a frame condition,
proved once for each function. What is left is fork, wait, exit, the fatal
fault and the scheduler.
-/
namespace Unit00.Steps
open Unit00.Memory Unit00.Execution Unit00.Frame Unit00.Paging Unit00.Paging.PTEntry Unit00.Task Unit00.Scheduler
open Unit00.Space Unit00.Mmu Unit00.Syscall Unit00.Machine Unit00.Lifecycle

/-! ### What a process keeps -/

/-- A process but for its saved registers and its address-space records. -/
structure Same (p q : Process) : Prop where
  pid : q.pid = p.pid
  parent_pid : q.parent_pid = p.parent_pid
  state : q.state = p.state
  page_table : q.page_table = p.page_table
  kernel_sp : q.kernel_sp = p.kernel_sp
  kernel_stack_frame : q.kernel_stack_frame = p.kernel_stack_frame
  heap_start : q.heap_start = p.heap_start

theorem Same.refl (p : Process) : Same p p := ⟨rfl,rfl,rfl,rfl,rfl,rfl,rfl⟩

theorem Same.trans {p q r : Process} (first : Same p q) (second : Same q r) : Same p r :=
  ⟨second.pid.trans first.pid,second.parent_pid.trans first.parent_pid,second.state.trans first.state,
    second.page_table.trans first.page_table,second.kernel_sp.trans first.kernel_sp,
    second.kernel_stack_frame.trans first.kernel_stack_frame,second.heap_start.trans first.heap_start⟩

/-- Kernel code for the running process alone: the other slots stay as they are,
    and so do the scheduler's statics and the hart. -/
structure Kept (k k' : Kernel) : Prop where
  current : k'.current = k.current
  next_pid : k'.next_pid = k.next_pid
  hart : k'.hart = k.hart
  others : ∀ i, i ≠ k.current → k'.process_list i = k.process_list i
  mine : ∀ p, k.process_list k.current = some p → ∃ q, k'.process_list k.current = some q ∧ Same p q
  absent : k.process_list k.current = none → k'.process_list k.current = none

instance : Std.Refl Kept where
  refl _ := ⟨rfl,rfl,rfl,fun _ _ => rfl,fun p slot => ⟨p,slot,Same.refl p⟩,fun slot => slot⟩

instance : IsTrans Kernel Kept where
  trans _ _ _ first second := by
    refine ⟨second.current.trans first.current,second.next_pid.trans first.next_pid,
      second.hart.trans first.hart,?_,?_,?_⟩
    · intro i other
      rw [second.others i (by rw [first.current]; exact other),first.others i other]
    · intro p slot
      obtain ⟨q,slotQ,same⟩ := first.mine p slot
      obtain ⟨r,slotR,same'⟩ := second.mine q (by rw [first.current]; exact slotQ)
      exact ⟨r,by rw [← first.current]; exact slotR,same.trans same'⟩
    · intro slot
      rw [← first.current]
      exact second.absent (by rw [first.current]; exact first.absent slot)

theorem Kept.trans {a b c : Kernel} (first : Kept a b) (second : Kept b c) : Kept a c :=
  IsTrans.trans a b c first second

/-- Exceptions that end in neither user mode nor a shutdown. -/
def Fatal : Diverge → Prop
  | .restore _ => False
  | .shutdown => False
  | _ => True

/-- Kernel code that schedules nothing. -/
abbrev Quiet {α : Type} (x : K α) : Prop := Guarded Kept Fatal x

/-- Changes outside the process table and the hart. -/
theorem kept_of_equal {k k' : Kernel} (table : k'.process_list = k.process_list) (current : k'.current = k.current)
    (next_pid : k'.next_pid = k.next_pid) (hart : k'.hart = k.hart) : Kept k k' := by
  refine ⟨current,next_pid,hart,?_,?_,?_⟩
  · intro i _
    rw [table]
  · intro p slot
    exact ⟨p,by rw [table]; exact slot,Same.refl p⟩
  · intro slot
    rw [table]
    exact slot

theorem quiet_onMm {α : Type} (x : M α) : Quiet (onMm x) := by
  refine ⟨fun k => ?_⟩
  rw [run_onMm]
  cases x.run k.mm with
  | ok a m => exact kept_of_equal rfl rfl rfl rfl
  | error e m => trivial

theorem quiet_lift {α : Type} (x : Except Panic α) : Quiet (lift x) := by
  cases x with
  | ok a => exact guarded_pure a
  | error e => exact guarded_throw trivial

theorem run_current {k : Kernel} {p : Process} (running : k.process_list k.current = some p) :
    current.run k = .ok p k := by
  simp [current,running]

theorem quiet_current : Quiet current := by
  refine ⟨fun k => ?_⟩
  cases running : k.process_list k.current with
  | none =>
    simp only [current,EStateM.run_bind,EStateM.run_get,running]
    exact trivial
  | some p =>
    rw [run_current running]
    exact Std.Refl.refl k

theorem run_update_current {k : Kernel} {p : Process} (running : k.process_list k.current = some p)
    (change : Process → Process) :
    (update_current change).run k =
      .ok ⟨⟩ { k with process_list := Function.update k.process_list k.current (some (change p)) } := by
  simp [update_current,run_current running]

theorem quiet_update_current {change : Process → Process} (same : ∀ p, Same p (change p)) :
    Quiet (update_current change) := by
  refine ⟨fun k => ?_⟩
  cases running : k.process_list k.current with
  | none =>
    simp only [update_current,current,EStateM.run_bind,EStateM.run_get,running]
    exact trivial
  | some p =>
    rw [run_update_current running]
    refine ⟨rfl,rfl,rfl,?_,?_,?_⟩
    · intro i other
      simp [Function.update_of_ne other]
    · intro q slot
      have equal : p = q := Option.some.inj (running.symm.trans slot)
      subst equal
      exact ⟨change p,by simp,same p⟩
    · intro slot
      simp [running] at slot

/-! ### The console and user memory -/

theorem quiet_modify {f : Kernel → Kernel} (table : ∀ k, (f k).process_list = k.process_list)
    (current : ∀ k, (f k).current = k.current) (next_pid : ∀ k, (f k).next_pid = k.next_pid)
    (hart : ∀ k, (f k).hart = k.hart) : Quiet (modify f) :=
  guarded_modify fun k => kept_of_equal (table k) (current k) (next_pid k) (hart k)

theorem quiet_putchar (c : BitVec 8) : Quiet (putchar c) :=
  quiet_modify (fun _ => rfl) (fun _ => rfl) (fun _ => rfl) (fun _ => rfl)

theorem quiet_puts (s : String) : Quiet (puts s) :=
  quiet_modify (fun _ => rfl) (fun _ => rfl) (fun _ => rfl) (fun _ => rfl)

theorem quiet_read_char : Quiet read_char := by
  refine guarded_bind guarded_get fun k => guarded_bind ?_ fun _ => guarded_pure _
  exact quiet_modify (fun _ => rfl) (fun _ => rfl) (fun _ => rfl) (fun _ => rfl)

theorem quiet_print_hex (val : BitVec 64) : Quiet (print_hex val) :=
  guarded_forM _ fun _ => quiet_putchar _

theorem quiet_user_load (va : Nat) : Quiet (user_load va) := by
  refine guarded_bind guarded_get fun k => ?_
  cases translate k.hart k.mm.mem .supervisor .load va with
  | none => exact guarded_throw trivial
  | some pa => exact guarded_pure _

theorem quiet_user_store (va : Nat) (value : BitVec 8) : Quiet (user_store va value) := by
  refine ⟨fun k => ?_⟩
  simp only [user_store,EStateM.run_bind,EStateM.run_get]
  cases translate k.hart k.mm.mem .supervisor .store va with
  | none => exact trivial
  | some pa => exact kept_of_equal rfl rfl rfl rfl

theorem quiet_user_write (va : Nat) (bytes : List (BitVec 8)) : Quiet (user_write va bytes) :=
  guarded_forM _ fun _ => quiet_user_store _ _

theorem quiet_ensure_range (ptr len : Nat) (write : Bool) : Quiet (ensure_range ptr len write) :=
  guarded_bind quiet_current fun _ => quiet_onMm _

theorem quiet_sys_read (fd buf len : Nat) : Quiet (sys_read fd buf len) := by
  unfold sys_read
  split
  · exact guarded_pure _
  refine guarded_bind (quiet_ensure_range _ _ _) fun checked => ?_
  cases checked with
  | error errno => exact guarded_pure _
  | ok _ =>
    refine guarded_bind (guarded_forM _ fun i => ?_) fun _ => guarded_pure _
    exact guarded_bind quiet_read_char fun _ => quiet_user_store _ _

theorem quiet_sys_write (fd buf len : Nat) : Quiet (sys_write fd buf len) := by
  unfold sys_write
  split
  · exact guarded_pure _
  refine guarded_bind (quiet_ensure_range _ _ _) fun checked => ?_
  cases checked with
  | error errno => exact guarded_pure _
  | ok _ =>
    refine guarded_bind (guarded_forM _ fun i => ?_) fun _ => guarded_pure _
    exact guarded_bind (quiet_user_load _) fun _ => quiet_putchar _

theorem quiet_sys_getcwd (buf size : Nat) : Quiet (sys_getcwd buf size) := by
  unfold sys_getcwd
  dsimp only
  split
  · exact guarded_pure _
  refine guarded_bind (quiet_ensure_range _ _ _) fun checked => ?_
  cases checked with
  | error errno => exact guarded_pure _
  | ok _ => exact guarded_bind (quiet_user_write _ _) fun _ => guarded_pure _

theorem quiet_sys_uname (buf : Nat) : Quiet (sys_uname buf) := by
  unfold sys_uname
  refine guarded_bind (quiet_ensure_range _ _ _) fun checked => ?_
  cases checked with
  | error errno => exact guarded_pure _
  | ok _ =>
    have field (index : Nat) (value : List (BitVec 8)) : Quiet (write_uts_field buf index value) :=
      quiet_user_write _ _
    have zero : Quiet (user_write buf (List.replicate UTS_SIZE 0)) := quiet_user_write _ _
    exact guarded_bind zero fun _ => guarded_bind (field _ _) fun _ => guarded_bind (field _ _) fun _ =>
      guarded_bind (field _ _) fun _ => guarded_bind (field _ _) fun _ => guarded_bind (field _ _) fun _ =>
      guarded_bind (field _ _) fun _ => guarded_pure _

/-! ### Heap and mappings -/

theorem quiet_grow_heap (old_break new_break : Nat) : Quiet (grow_heap old_break new_break) := by
  unfold grow_heap
  exact guarded_bind (quiet_lift _) fun _ => guarded_bind (quiet_lift _) fun _ => guarded_bind quiet_current fun _ =>
    quiet_onMm _

theorem quiet_shrink_heap (new_break old_break : Nat) : Quiet (shrink_heap new_break old_break) := by
  unfold shrink_heap
  exact guarded_bind (quiet_lift _) fun _ => guarded_bind (quiet_lift _) fun _ => guarded_bind quiet_current fun _ =>
    quiet_onMm _

theorem quiet_set_heap_end (new_break : Nat) : Quiet (update_current fun proc => { proc with heap_end := new_break }) :=
  quiet_update_current fun _ => ⟨rfl,rfl,rfl,rfl,rfl,rfl,rfl⟩

theorem quiet_sys_brk (new_break : Nat) : Quiet (sys_brk new_break) := by
  unfold sys_brk
  refine guarded_bind quiet_current fun cur => guarded_bind quiet_current fun cur' => ?_
  dsimp only
  split
  · exact guarded_pure _
  split
  · exact guarded_pure _
  split
  · refine guarded_bind (quiet_grow_heap _ _) fun grown => ?_
    split
    · exact guarded_bind (quiet_set_heap_end _) fun _ => guarded_pure _
    · exact guarded_pure _
  · split
    · exact guarded_bind (quiet_shrink_heap _ _) fun _ => guarded_bind (quiet_set_heap_end _) fun _ => guarded_pure _
    · exact guarded_bind (quiet_set_heap_end _) fun _ => guarded_pure _

theorem quiet_mmap_anonymous (addr len prot flags : Nat) (pte_flags : PTEFlags) :
    Quiet (mmap_anonymous addr len prot flags pte_flags) := by
  unfold mmap_anonymous
  refine guarded_bind quiet_current fun cur => guarded_bind (quiet_lift _) fun place => ?_
  cases place with
  | none => exact guarded_pure _
  | some start =>
    dsimp only
    cases find_free_mmap_slot cur.mmap_areas with
    | none => exact guarded_pure _
    | some slot =>
      refine guarded_bind (quiet_onMm _) fun mapped => ?_
      split
      · refine guarded_bind (quiet_update_current fun _ => ?_) fun _ => guarded_pure _
        exact ⟨rfl,rfl,rfl,rfl,rfl,rfl,rfl⟩
      · exact guarded_pure _

theorem quiet_sys_mmap (addr len prot flags fd offset : Nat) : Quiet (sys_mmap addr len prot flags fd offset) := by
  unfold sys_mmap
  cases checked_align_up len with
  | none => exact guarded_pure _
  | some len =>
    dsimp only
    split
    · exact guarded_pure _
    split
    · exact guarded_pure _
    split
    · exact guarded_pure _
    split
    · exact guarded_pure _
    split
    · exact guarded_pure _
    cases pte_flags_from_prot prot with
    | none => exact guarded_pure _
    | some pte_flags => exact quiet_mmap_anonymous _ _ _ _ _

theorem quiet_munmap_range (addr stop : Nat) : Quiet (munmap_range addr stop) := by
  unfold munmap_range
  refine guarded_bind quiet_current fun cur => ?_
  split
  · exact guarded_pure _
  refine guarded_bind (quiet_onMm _) fun _ => guarded_bind (quiet_lift _) fun areas =>
    guarded_bind (quiet_update_current fun _ => ?_) fun _ => guarded_pure _
  exact ⟨rfl,rfl,rfl,rfl,rfl,rfl,rfl⟩

theorem quiet_sys_munmap (addr len : Nat) : Quiet (sys_munmap addr len) := by
  unfold sys_munmap
  split
  · exact guarded_pure _
  cases checked_align_up len with
  | none => exact guarded_pure _
  | some len =>
    dsimp only
    split
    · exact guarded_pure _
    cases checked_add addr len with
    | none => exact guarded_pure _
    | some stop =>
      dsimp only
      split
      · exact guarded_pure _
      · exact quiet_munmap_range _ _

theorem quiet_sys_exec : Quiet sys_exec := by
  refine guarded_bind (quiet_update_current fun _ => ?_) fun _ => guarded_pure _
  exact ⟨rfl,rfl,rfl,rfl,rfl,rfl,rfl⟩

theorem quiet_wait_status (exit_code_ptr code : Nat) : Quiet (wait_status exit_code_ptr code) := by
  unfold wait_status
  split
  · refine guarded_bind quiet_current fun cur => guarded_bind (quiet_onMm _) fun found => ?_
    cases found with
    | none => exact quiet_user_write _ _
    | some entry =>
      refine guarded_bind (quiet_onMm _) fun e => ?_
      split
      · exact guarded_bind (quiet_onMm _) fun _ => quiet_user_write _ _
      · exact quiet_user_write _ _
  · exact guarded_pure _

theorem quiet_timer_tick : Quiet timer_tick := by
  refine guarded_bind (quiet_modify (fun _ => rfl) (fun _ => rfl) (fun _ => rfl) (fun _ => rfl)) fun _ => ?_
  exact guarded_bind (quiet_puts _) fun _ => guarded_bind guarded_get fun _ => guarded_bind (quiet_print_hex _) fun _ =>
    guarded_bind (quiet_puts _) fun _ => guarded_pure _

/-! ### Headers -/

/-- The header of a process. -/
def header (p : Process) : Header := ⟨p.pid,p.parent_pid,p.state⟩

/-- The process table without the memory of the processes. -/
def slots (t : Table) : Slots := fun i => (t i).map header

/-- What the scheduler knows of a kernel state. -/
def procs (k : Kernel) : System := ⟨slots k.process_list,k.current,k.next_pid⟩

theorem slots_some {t : Table} {i : Fin MAX_PROCESSES} {p : Process} (slot : t i = some p) :
    slots t i = some (header p) := by
  simp [slots,slot]

theorem slots_inv {t : Table} {i : Fin MAX_PROCESSES} {h : Header} (slot : slots t i = some h) :
    ∃ p, t i = some p ∧ header p = h := by
  simpa [slots] using slot

theorem slots_update (t : Table) (i : Fin MAX_PROCESSES) (p : Process) :
    slots (Function.update t i (some p)) = Function.update (slots t) i (some (header p)) := by
  funext j
  by_cases same : j = i
  · subst same
    simp [slots]
  · simp [slots,Function.update_of_ne same]

theorem slots_mapTable (t : Table) (cur_pid : Nat) :
    slots (mapTable t (adopt cur_pid)) = fun i => (slots t i).map (adoptHeader cur_pid) := by
  funext i
  simp only [slots,mapTable,Option.map_map]
  congr 1
  funext p
  by_cases orphan : p.parent_pid = cur_pid ∧ p.state ≠ .Gone
  · simp [adopt,adoptHeader,header,orphan]
  · simp [adopt,adoptHeader,header,orphan]

theorem slots_wakeTable (t : Table) (parent_pid : Nat) : slots (wakeTable t parent_pid) = wakeSlots (slots t) parent_pid := by
  have same : waitingHeader parent_pid (slots t) = waiting parent_pid t := by
    funext i
    unfold waitingHeader waiting slots
    cases t i <;> rfl
  unfold wakeTable wakeSlots
  rw [same]
  cases found : (List.finRange MAX_PROCESSES).find? (waiting parent_pid t) with
  | none => rfl
  | some i =>
    funext j
    by_cases here : j = i
    · subst here
      cases slot : t j <;> simp [slots,slot,header]
    · simp [slots,Function.update_of_ne here]

/-- A quiet stretch of kernel code leaves the system as it is. -/
theorem procs_kept {k k' : Kernel} (kept : Kept k k') : procs k' = procs k := by
  have table : slots k'.process_list = slots k.process_list := by
    funext i
    by_cases mine : i = k.current
    · subst mine
      cases slot : k.process_list k.current with
      | none => simp [slots,slot,kept.absent slot]
      | some p =>
        obtain ⟨q,slotQ,same⟩ := kept.mine p slot
        simp [slots,slot,slotQ,header,same.pid,same.parent_pid,same.state]
    · simp [slots,kept.others i mine]
  unfold procs
  rw [table,kept.current,kept.next_pid]

theorem pick_next_some {t : Table} {cur j : Fin MAX_PROCESSES} (found : pick_next t cur = some j) :
    ∃ p, t j = some p ∧ p.state = .Ready := by
  have isReady := List.find?_some found
  unfold ready at isReady
  cases slot : t j with
  | none => simp [slot] at isReady
  | some p => exact ⟨p,rfl,by simpa [slot] using isReady⟩

/-- The search of `pick_next` visits every slot. -/
theorem pick_next_none {t : Table} {cur : Fin MAX_PROCESSES} (none : pick_next t cur = none) (j : Fin MAX_PROCESSES)
    {p : Process} (slot : t j = some p) : p.state ≠ .Ready := by
  intro isReady
  have visited : j ∈ (List.range' 1 MAX_PROCESSES).map fun i =>
      (⟨(cur.val+i)%MAX_PROCESSES,Nat.mod_lt _ (by decide)⟩ : Fin MAX_PROCESSES) := by
    rw [List.mem_map]
    have small := j.isLt
    have small' := cur.isLt
    simp only [MAX_PROCESSES] at small small'
    by_cases after : cur.val < j.val
    · refine ⟨j.val-cur.val,by rw [List.mem_range'_1]; simp only [MAX_PROCESSES]; omega,Fin.ext ?_⟩
      simp only [MAX_PROCESSES]
      omega
    · refine ⟨32+j.val-cur.val,by rw [List.mem_range'_1]; simp only [MAX_PROCESSES]; omega,Fin.ext ?_⟩
      simp only [MAX_PROCESSES]
      omega
  have refused := List.find?_eq_none.mp none j visited
  simp [ready,slot,isReady] at refused

theorem find_empty_slot_some {t : Table} {i : Fin MAX_PROCESSES} (found : find_empty_slot t = some i) {p : Process}
    (slot : t i = some p) : p.state = .Gone := by
  have free := List.find?_some found
  simpa [slot] using free

/-! ### The scheduler -/

/-- The kernel with the registers of the running process saved. -/
def saved (k : Kernel) (cur : Process) : Kernel :=
  let proc := { cur with trap_frame := TrapFrame.image k.mm.mem (cur.kernel_sp-TrapFrame.SIZE) }
  { k with process_list := Function.update k.process_list k.current (some proc) }

/-- The kernel about to return to the process `next` in slot `j`. -/
def resumed (k : Kernel) (j : Fin MAX_PROCESSES) (next : Process) : Kernel :=
  { k with
    current := j
    process_list := Function.update k.process_list j (some { next with state := .Running })
    mm := { k.mm with mem := storeWords k.mm.mem (next.kernel_sp-TrapFrame.SIZE) next.trap_frame.words }
    hart := { k.hart with satp := next.page_table.satp_val } }

/-- `schedule` saves the running process and goes on with a ready one, or shuts
    the machine down when there is none. -/
theorem schedule_cases {k : Kernel} {cur : Process} (running : k.process_list k.current = some cur) :
    ((∀ α : Type, (schedule : K α).run k = .error .shutdown (saved k cur)) ∧
      ∀ j p, (saved k cur).process_list j = some p → p.state ≠ .Ready) ∨
    ∃ j next, (∀ α : Type, (schedule : K α).run k =
        .error (.restore (next.kernel_sp-TrapFrame.SIZE)) (resumed (saved k cur) j next)) ∧
      (saved k cur).process_list j = some next ∧ next.state = .Ready ∧
      pick_next (saved k cur).process_list k.current = some j := by
  have stack := onMm_ok (TrapFrame.run_read_from_stack (cur.kernel_sp-TrapFrame.SIZE) k.mm)
  cases picked : pick_next (saved k cur).process_list (saved k cur).current with
  | none =>
    left
    refine ⟨fun α => ?_,fun j p slot => pick_next_none picked j slot⟩
    unfold schedule
    rw [run_seq (run_current running),run_seq stack,run_seq (run_update_current running _),run_seq (EStateM.run_get _)]
    unfold saved at picked ⊢
    rw [picked]
    rfl
  | some j =>
    right
    obtain ⟨next,slot,isReady⟩ := pick_next_some picked
    refine ⟨j,next,fun α => ?_,slot,isReady,picked⟩
    unfold schedule
    rw [run_seq (run_current running),run_seq stack,run_seq (run_update_current running _),run_seq (EStateM.run_get _)]
    unfold saved at picked slot ⊢
    rw [picked]
    dsimp only
    rw [run_seq (EStateM.run_modify _ _),run_seq (run_update_current (p := next) slot _),
      run_seq (run_current (p := { next with state := .Running }) (by simp)),
      run_seq (onMm_ok (TrapFrame.run_write_to_stack _ _ _)),run_seq (EStateM.run_modify _ _),run_raise]
    rfl

theorem slots_saved {k : Kernel} {cur : Process} (running : k.process_list k.current = some cur) :
    slots (saved k cur).process_list = slots k.process_list := by
  simp only [saved,slots_update]
  apply Function.update_eq_self_iff.mpr
  simp [slots,running,header]

/-- What `schedule` does to the system. -/
theorem schedule_turn {α : Type} {k : Kernel} {cur : Process} (running : k.process_list k.current = some cur) :
    (∃ k', (schedule : K α).run k = .error .shutdown k' ∧ slots k'.process_list = slots k.process_list ∧
      ∀ j h, slots k.process_list j = some h → h.state ≠ .Ready) ∨
    ∃ sp k' j next, (schedule : K α).run k = .error (.restore sp) k' ∧
      procs k' = switch (procs k) (slots k.process_list) j next ∧
      slots k.process_list j = some next ∧ next.state = .Ready := by
  have same := slots_saved running
  rcases schedule_cases running with ⟨run,idle⟩ | ⟨j,next,run,slot,isReady,_⟩
  · left
    refine ⟨saved k cur,run α,same,?_⟩
    intro j h slot
    rw [← same] at slot
    obtain ⟨p,slotP,rfl⟩ := slots_inv slot
    exact idle j p slotP
  · right
    refine ⟨_,_,j,header next,run α,?_,?_,isReady⟩
    · simp only [procs,resumed,switch,slots_update,same]
      rfl
    · rw [← same]
      exact slots_some slot

/-! ### Deaths -/

/-- The kernel in which the children of the running process were given to init. -/
def reparented (k : Kernel) (cur_pid : Nat) : Kernel := { k with process_list := mapTable k.process_list (adopt cur_pid) }

/-- The kernel in which the running process is a zombie and its parent was woken. -/
def buried (k : Kernel) (cur : Process) (code : Nat) : Kernel :=
  let dead := { cur with state := .Zombie code }
  { k with process_list := wakeTable (Function.update k.process_list k.current (some dead)) cur.parent_pid }

theorem run_reparent {k : Kernel} {cur : Process} (running : k.process_list k.current = some cur) :
    reparent_orphans_to_init.run k = .ok ⟨⟩ (reparented k cur.pid) := by
  unfold reparent_orphans_to_init
  rw [run_seq (run_current running),EStateM.run_modify]
  rfl

theorem run_wake_parent {k : Kernel} {cur : Process} (running : k.process_list k.current = some cur) :
    wake_parent.run k = .ok ⟨⟩ { k with process_list := wakeTable k.process_list cur.parent_pid } := by
  unfold wake_parent
  rw [run_seq (run_current running),EStateM.run_modify]

theorem wakeTable_kept {t : Table} {i : Fin MAX_PROCESSES} {p : Process} (slot : t i = some p) (awake : p.state ≠ .Blocked)
    (parent_pid : Nat) : wakeTable t parent_pid i = some p := by
  unfold wakeTable
  cases found : (List.finRange MAX_PROCESSES).find? (waiting parent_pid t) with
  | none => exact slot
  | some j =>
    have waits := List.find?_some found
    have other : i ≠ j := by
      rintro rfl
      simp [waiting,slot,awake] at waits
    simp [Function.update_of_ne other,slot]

/-- The last part of both ways to die: the zombie, the wakeup, the scheduler. -/
theorem run_die {α : Type} {k : Kernel} {cur : Process} (running : k.process_list k.current = some cur) (code : Nat) :
    (do
      update_current fun proc => { proc with state := .Zombie code }
      wake_parent
      schedule : K α).run k = (schedule : K α).run (buried k cur code) ∧
    (buried k cur code).process_list k.current = some { cur with state := .Zombie code } := by
  have now : Function.update k.process_list k.current (some { cur with state := .Zombie code }) k.current =
      some { cur with state := .Zombie code } := by simp
  constructor
  · rw [run_seq (run_update_current running _),run_seq (run_wake_parent now)]
    rfl
  · exact wakeTable_kept now (by simp) _

/-! ### Turns -/

/-- The outcome of kernel code for the running process, as a step of the system.
    `L` says which steps it may be: with a result when the code returned to the
    process, without one when the scheduler went on with another. -/
def Turn {α : Type} (k : Kernel) (result : EStateM.Result Diverge Kernel α) (L : Option α → Label → Prop) : Prop :=
  match result with
  | .ok a k' => ∃ label, L (some a) label ∧ Step (procs k) label (procs k') ∧ k'.current = k.current ∧ k'.hart = k.hart
  | .error (.restore _) k' => ∃ label, L none label ∧ Step (procs k) label (procs k')
  | .error .shutdown k' => Stuck (procs k) (slots k'.process_list)
  | .error _ _ => True

theorem Turn.mono {α : Type} {k : Kernel} {result : EStateM.Result Diverge Kernel α} {L L' : Option α → Label → Prop}
    (turn : Turn k result L) (weaker : ∀ r label, L r label → L' r label) : Turn k result L' := by
  match result with
  | .ok a k' =>
    obtain ⟨label,may,rest⟩ := turn
    exact ⟨label,weaker _ _ may,rest⟩
  | .error (.restore _) k' =>
    obtain ⟨label,may,rest⟩ := turn
    exact ⟨label,weaker _ _ may,rest⟩
  | .error .shutdown k' => exact turn
  | .error (.panicked _) _ => trivial
  | .error (.unexpected_trap _) _ => trivial
  | .error (.kernel_trap _ _) _ => trivial

/-- A turn from a state that the scheduler cannot tell from another. -/
theorem Turn.start {α : Type} {k k' : Kernel} {result : EStateM.Result Diverge Kernel α} {L : Option α → Label → Prop}
    (turn : Turn k' result L) (same : procs k' = procs k) (hart : k'.hart = k.hart) : Turn k result L := by
  have current : k'.current = k.current := congrArg System.current same
  match result with
  | .ok a _ =>
    obtain ⟨label,may,step,stays,keeps⟩ := turn
    exact ⟨label,may,same ▸ step,stays.trans current,keeps.trans hart⟩
  | .error (.restore _) _ =>
    obtain ⟨label,may,step⟩ := turn
    exact ⟨label,may,same ▸ step⟩
  | .error .shutdown _ =>
    have stuck : Stuck (procs k') _ := turn
    exact (same ▸ stuck : Stuck (procs k) _)
  | .error (.panicked _) _ => trivial
  | .error (.unexpected_trap _) _ => trivial
  | .error (.kernel_trap _ _) _ => trivial

theorem Quiet.turn {α : Type} {x : K α} (quiet : Quiet x) (k : Kernel) :
    Turn k (x.run k) fun r label => r.isSome ∧ label = .quiet := by
  cases run : x.run k with
  | ok a k' =>
    have kept := quiet.ok run
    exact ⟨.quiet,⟨rfl,rfl⟩,by rw [procs_kept kept]; exact .quiet _,kept.current,kept.hart⟩
  | error e k' =>
    have fatal := quiet.error run
    match e with
    | .panicked _ => trivial
    | .unexpected_trap _ => trivial
    | .kernel_trap _ _ => trivial

/-- Quiet code before a turn. -/
theorem Quiet.seq {α β : Type} {x : K β} {f : β → K α} {k : Kernel} {L : Option α → Label → Prop} (quiet : Quiet x)
    (rest : ∀ b k', Kept k k' → Turn k' ((f b).run k') L) : Turn k ((x >>= f).run k) L := by
  cases run : x.run k with
  | ok b k' =>
    have kept := quiet.ok run
    rw [run_seq run]
    exact (rest b k' kept).start (procs_kept kept) kept.hart
  | error e k' =>
    have fatal := quiet.error run
    rw [run_seq_error run]
    match e with
    | .panicked _ => trivial
    | .unexpected_trap _ => trivial
    | .kernel_trap _ _ => trivial

/-- The system after both ways to die. -/
theorem slots_buried (k : Kernel) (me : Process) (mm : Mm) (code : Nat) :
    slots (buried { reparented k me.pid with mm := mm } (adopt me.pid me) code).process_list =
      dieSlots (procs k) (header me) code := by
  simp only [buried,reparented,slots_wakeTable,slots_update,slots_mapTable,dieSlots,procs]
  by_cases own : me.parent_pid = me.pid ∧ me.state ≠ .Gone
  · simp [adopt,adoptHeader,header,own]
  · simp [adopt,adoptHeader,header,own]

theorem die_turn {α : Type} {k : Kernel} {me : Process} (running : k.process_list k.current = some me) (mm : Mm)
    (code : Nat) :
    Turn k ((schedule : K α).run (buried { reparented k me.pid with mm := mm } (adopt me.pid me) code))
      fun r label => r = none ∧ label = .die code := by
  have adopted : (reparented k me.pid).process_list k.current = some (adopt me.pid me) := by
    simp [reparented,mapTable,running]
  have table := slots_buried k me mm code
  have running' := (run_die (α := α) (k := { reparented k me.pid with mm := mm }) adopted code).2
  have me_slot : (procs k).slots (procs k).current = some (header me) := slots_some running
  rcases schedule_turn (α := α) running' with ⟨k',run,same,idle⟩ | ⟨sp,k',j,next,run,after,slot,isReady⟩
  · rw [run]
    rw [table] at same idle
    change Stuck (procs k) (slots k'.process_list)
    rw [same]
    exact .die me_slot idle
  · rw [run]
    rw [table] at after slot
    refine ⟨.die code,⟨rfl,rfl⟩,?_⟩
    rw [after]
    exact .die me_slot slot isReady

theorem sys_exit_turn {α : Type} {k : Kernel} {me : Process} (running : k.process_list k.current = some me) (code : Nat) :
    Turn k ((sys_exit code : K α).run k) fun r label => r = none ∧ label = .die code := by
  have adopted : (reparented k me.pid).process_list k.current = some (adopt me.pid me) := by
    simp [reparented,mapTable,running]
  unfold sys_exit
  rw [run_seq (run_reparent running),run_seq (run_current adopted)]
  cases leaves : ((adopt me.pid me).page_table.for_each_leaf 0 KERNEL_VPN2_MIN exit_leaf).run k.mm with
  | error e m =>
    rw [run_seq_error (e := .panicked e) (t := { reparented k me.pid with mm := m })]
    · trivial
    · rw [run_onMm]
      simp only [reparented,leaves]
  | ok _ m =>
    rw [run_seq (onMm_ok (k := reparented k me.pid) leaves),(run_die (k := { reparented k me.pid with mm := m }) adopted code).1]
    exact die_turn running m code

theorem do_segfault_turn {α : Type} {k : Kernel} {me : Process} (running : k.process_list k.current = some me)
    (scause stval : BitVec 64) :
    Turn k ((do_segfault scause stval : K α).run k) fun r label => r = none ∧ label = .die 1 := by
  unfold do_segfault
  refine Quiet.seq (quiet_puts _) fun _ k1 kept1 => Quiet.seq (quiet_print_hex _) fun _ k2 kept2 =>
    Quiet.seq (quiet_puts _) fun _ k3 kept3 => Quiet.seq (quiet_print_hex _) fun _ k4 kept4 =>
    Quiet.seq (quiet_puts _) fun _ k5 kept5 => ?_
  have kept : Kept k k5 := (((kept1.trans kept2).trans kept3).trans kept4).trans kept5
  obtain ⟨me5,running5,_⟩ := kept.mine me running
  rw [← kept.current] at running5
  have adopted : (reparented k5 me5.pid).process_list k5.current = some (adopt me5.pid me5) := by
    simp [reparented,mapTable,running5]
  rw [run_seq (run_reparent running5),(run_die adopted 1).1]
  exact die_turn running5 k5.mm 1

/-! ### Fork and wait -/

theorem sys_fork_turn {k : Kernel} {me : Process} (running : k.process_list k.current = some me) :
    Turn k (sys_fork.run k) fun r label =>
      (r = some (linux_error EAGAIN) ∧ label = .quiet) ∨ (r = some k.next_pid ∧ label = .fork k.next_pid) := by
  unfold sys_fork
  rw [run_seq (EStateM.run_get _)]
  cases found : find_empty_slot k.process_list with
  | none => exact ⟨.quiet,.inl ⟨rfl,rfl⟩,.quiet _,rfl,rfl⟩
  | some idx =>
    have pid : alloc_pid.run k = .ok k.next_pid { k with next_pid := k.next_pid+1 } := rfl
    dsimp only
    rw [run_seq pid,run_seq (run_current (k := { k with next_pid := k.next_pid+1 }) running)]
    cases memory : (fork_memory me.page_table).run k.mm with
    | error e m =>
      rw [run_seq_error (e := .panicked e) (t := { k with next_pid := k.next_pid+1, mm := m })]
      · trivial
      · rw [run_onMm]
        simp only [memory]
    | ok child m =>
      rw [run_seq (onMm_ok (k := { k with next_pid := k.next_pid+1 }) memory),run_seq (EStateM.run_modify _ _)]
      refine ⟨.fork k.next_pid,.inr ⟨rfl,rfl⟩,?_,rfl,rfl⟩
      simp only [procs,slots_update]
      refine Step.fork (s := procs k) (slots_some running) ?_
      intro h slot
      obtain ⟨p,slotP,rfl⟩ := slots_inv slot
      exact find_empty_slot_some found slotP

theorem reap_turn {k : Kernel} {me child : Process} {idx : Fin MAX_PROCESSES} {code : Nat}
    (running : k.process_list k.current = some me) (slot : k.process_list idx = some child)
    (mine : child.parent_pid = me.pid) (dead : child.state = .Zombie code) (exit_code_ptr : Nat) :
    Turn k ((reap exit_code_ptr idx).run k) fun r label => r = some child.pid ∧ label = .reap child.pid code := by
  unfold reap
  rw [run_seq (EStateM.run_get _),slot]
  cases status : (wait_status exit_code_ptr (exit_code child)).run k with
  | error e k' =>
    have fatal := (quiet_wait_status _ _).error status
    rw [run_seq_error status]
    match e with
    | .panicked _ => trivial
    | .unexpected_trap _ => trivial
    | .kernel_trap _ _ => trivial
  | ok _ k1 =>
    have kept := (quiet_wait_status _ _).ok status
    rw [run_seq status]
    cases freed : (free_user_pt_resources child).run k1.mm with
    | error e m =>
      rw [run_seq_error (e := .panicked e) (t := { k1 with mm := m })]
      · trivial
      · rw [run_onMm]
        simp only [freed]
    | ok _ m =>
      rw [run_seq (onMm_ok freed),run_seq (EStateM.run_modify _ _)]
      refine ⟨.reap child.pid code,⟨rfl,rfl⟩,?_,kept.current,kept.hart⟩
      have same := procs_kept kept
      have step := Step.reap (s := procs k) (slots_some running) (slots_some slot) mine dead
      have after : procs { k1 with mm := m, process_list := Function.update k1.process_list idx (some { child with state := .Gone }) } =
          { procs k1 with slots := Function.update (procs k1).slots idx (some { header child with state := .Gone }) } := by
        simp only [procs,slots_update,header]
      rw [← same] at step
      rw [← same]
      exact after ▸ step

theorem zombie_child_some {t : Table} {cur_pid : Nat} {i : Fin MAX_PROCESSES} (found : zombie_child t cur_pid i = true) :
    ∃ child code, t i = some child ∧ child.parent_pid = cur_pid ∧ child.state = .Zombie code := by
  unfold zombie_child at found
  cases slot : t i with
  | none => simp [slot] at found
  | some child =>
    cases state : child.state with
    | Zombie code => exact ⟨child,code,rfl,by simpa [slot,state] using found,state⟩
    | Ready => simp [slot,state] at found
    | Running => simp [slot,state] at found
    | Blocked => simp [slot,state] at found
    | Gone => simp [slot,state] at found

theorem live_child_some {t : Table} {cur_pid : Nat} {i : Fin MAX_PROCESSES} (found : live_child t cur_pid i = true) :
    ∃ child, t i = some child ∧ child.parent_pid = cur_pid ∧ Live (header child) := by
  unfold live_child at found
  cases slot : t i with
  | none => simp [slot] at found
  | some child =>
    refine ⟨child,rfl,?_⟩
    cases state : child.state with
    | Zombie code => simp [slot,state] at found
    | Gone => simp [slot,state] at found
    | Ready => exact ⟨by simpa [slot,state] using found,.inl state⟩
    | Running => exact ⟨by simpa [slot,state] using found,.inr (.inl state)⟩
    | Blocked => exact ⟨by simpa [slot,state] using found,.inr (.inr state)⟩

theorem no_zombie_child {t : Table} {cur_pid : Nat}
    (found : (List.finRange MAX_PROCESSES).find? (zombie_child t cur_pid) = none) (i : Fin MAX_PROCESSES) (h : Header)
    (slot : slots t i = some h) (mine : h.parent_pid = cur_pid) : ¬ Zombie h := by
  rintro ⟨code,dead⟩
  obtain ⟨p,slotP,rfl⟩ := slots_inv slot
  have refused := List.find?_eq_none.mp found i (List.mem_finRange i)
  have parent : p.parent_pid = cur_pid := mine
  have state : p.state = .Zombie code := dead
  simp [zombie_child,slotP,parent,state] at refused

/-- No zombie child and no live child: no child that is not gone. -/
theorem no_child {t : Table} {cur_pid : Nat} (clean : ∀ i h, slots t i = some h → h.parent_pid = cur_pid → ¬ Zombie h)
    (no_live : ¬ (List.finRange MAX_PROCESSES).any (live_child t cur_pid) = true) (i : Fin MAX_PROCESSES) (h : Header)
    (slot : slots t i = some h) (mine : h.parent_pid = cur_pid) : h.state = .Gone := by
  obtain ⟨p,slotP,rfl⟩ := slots_inv slot
  rcases state_cases (header p) with live | zombie | gone
  · exfalso
    apply no_live
    refine List.any_eq_true.mpr ⟨i,List.mem_finRange i,?_⟩
    have parent : p.parent_pid = cur_pid := mine
    rcases live with state | state | state
    · simp only [header] at state; simp [live_child,slotP,parent,state]
    · simp only [header] at state; simp [live_child,slotP,parent,state]
    · simp only [header] at state; simp [live_child,slotP,parent,state]
  · exact absurd zombie (clean i (header p) slot mine)
  · exact gone

/-- What `sys_wait` of the process with a pid may do: reap a zombie child, block
    with a live one, or find no child at all. -/
def WaitTurn (s : Slots) (pid : Nat) (r : Option Nat) (label : Label) : Prop :=
  (∃ child code, r = some child ∧ label = .reap child code) ∨ (r = none ∧ label = .block) ∨
    (r = some (linux_error ECHILD) ∧ label = .quiet ∧ ∀ i h, s i = some h → h.parent_pid = pid → h.state = .Gone)

theorem sys_wait_turn {k : Kernel} {me : Process} (running : k.process_list k.current = some me) (exit_code_ptr : Nat) :
    Turn k ((sys_wait exit_code_ptr).run k) (WaitTurn (slots k.process_list) me.pid) := by
  unfold sys_wait
  rw [run_seq (run_current running),run_seq (EStateM.run_get _)]
  dsimp only
  cases found : (List.finRange MAX_PROCESSES).find? (zombie_child k.process_list me.pid) with
  | some idx =>
    obtain ⟨child,code,slot,mine,dead⟩ := zombie_child_some (List.find?_some found)
    refine (reap_turn running slot mine dead exit_code_ptr).mono ?_
    rintro r label ⟨rfl,rfl⟩
    exact .inl ⟨child.pid,code,rfl,rfl⟩
  | none =>
    have clean := no_zombie_child found
    dsimp only
    split
    · rename_i some_live
      obtain ⟨i,_,isLive⟩ := List.any_eq_true.mp some_live
      obtain ⟨child,slot,mine,live⟩ := live_child_some isLive
      have blocked : ({ k with process_list := Function.update k.process_list k.current (some { me with state := .Blocked }) }
          : Kernel).process_list k.current = some { me with state := .Blocked } := by simp
      have table : slots (Function.update k.process_list k.current (some { me with state := .Blocked })) =
          blockSlots (procs k) (header me) := by
        rw [slots_update]
        rfl
      have me_slot : (procs k).slots (procs k).current = some (header me) := slots_some running
      rw [run_seq (run_update_current running _)]
      rcases schedule_turn (α := Nat) blocked with ⟨k',run,same,idle⟩ | ⟨sp,k',j,next,run,after,slotN,isReady⟩
      · rw [run]
        change Stuck (procs k) (slots k'.process_list)
        rw [same]
        dsimp only at idle ⊢
        rw [table] at idle ⊢
        exact .block me_slot (slots_some slot) mine live idle
      · rw [run]
        dsimp only at after slotN
        rw [table] at after slotN
        refine ⟨.block,.inr (.inl ⟨rfl,rfl⟩),?_⟩
        rw [after]
        exact .block me_slot clean (slots_some slot) mine live slotN isReady
    · rename_i no_live
      exact ⟨.quiet,.inr (.inr ⟨rfl,rfl,no_child clean no_live⟩),.quiet _,rfl,rfl⟩

/-! ### Traps -/

/-- The store fault at an address is a pending copy on write, by the kernel's own test. -/
def Pending (k : Kernel) (me : Process) (stval : BitVec 64) : Prop :=
  ∃ entry, (cow_entry me.page_table stval.toNat).run k.mm = .ok (some entry) k.mm

/-- A page fault that the kernel does not resolve. -/
def Segfaults (k : Kernel) (me : Process) (scause stval : BitVec 64) : Prop :=
  scause = 12 ∨ scause = 13 ∨ (scause = 15 ∧ ¬ Pending k me stval)

/-- What a trap may do, by its cause and the registers of the system call. -/
def TrapTurn (k : Kernel) (me : Process) (scause stval : BitVec 64) (number argument : Nat) (r : Option Nat) (label : Label) :
    Prop :=
  if scause = 8 then
    if number = SYS_EXIT ∨ number = SYS_EXIT_GROUP then r = none ∧ label = .die argument
    else if number = SYS_FORK then
      (r = some (linux_error EAGAIN) ∧ label = .quiet) ∨ (r = some k.next_pid ∧ label = .fork k.next_pid)
    else if number = SYS_WAIT then WaitTurn (slots k.process_list) me.pid r label
    else r.isSome ∧ label = .quiet
  else (r.isSome ∧ label = .quiet ∧ ¬ Segfaults k me scause stval) ∨
    (r = none ∧ label = .die 1 ∧ Segfaults k me scause stval)

/-- Looking for a pending copy on write changes nothing. -/
theorem cow_entry_pure (pt : PageTable) (va : Nat) (m : Mm) : ∃ found, (cow_entry pt va).run m = .ok found m := by
  have looked : ∃ slot, (pt.lookup va).run m = .ok slot m := by
    unfold PageTable.lookup
    rw [run_seq (run_read _ _)]
    split
    · exact ⟨none,rfl⟩
    rw [run_seq (run_read _ _)]
    split
    · exact ⟨none,rfl⟩
    · exact ⟨_,rfl⟩
  obtain ⟨slot,run⟩ := looked
  unfold cow_entry
  rw [run_seq run]
  cases slot with
  | none => exact ⟨none,rfl⟩
  | some entry =>
    dsimp only
    rw [run_seq (run_read _ _)]
    split
    · exact ⟨some entry,rfl⟩
    · exact ⟨none,rfl⟩

theorem page_fault_turn {k : Kernel} {me : Process} (running : k.process_list k.current = some me)
    (scause stval : BitVec 64) :
    Turn k ((page_fault_handler scause stval).run k) fun r label =>
      (r.isSome ∧ label = .quiet ∧ scause = 15 ∧ Pending k me stval) ∨
      (r = none ∧ label = .die 1 ∧ ¬ (scause = 15 ∧ Pending k me stval)) := by
  unfold page_fault_handler
  split
  · rename_i other
    have fatal : ¬ (scause = 15 ∧ Pending k me stval) := fun both => other both.1
    cases run : (do_segfault scause stval : K PUnit).run k with
    | ok a k' =>
      have turn := do_segfault_turn (α := PUnit) running scause stval
      rw [run] at turn
      obtain ⟨label,⟨impossible,_⟩,_⟩ := turn
      cases impossible
    | error e k' =>
      have turn := do_segfault_turn (α := PUnit) running scause stval
      rw [run] at turn
      rw [run_seq_error run]
      match e with
      | .restore _ =>
        obtain ⟨label,⟨_,dies⟩,step⟩ := turn
        exact ⟨label,.inr ⟨rfl,dies,fatal⟩,step⟩
      | .shutdown => exact turn
      | .panicked _ => trivial
      | .unexpected_trap _ => trivial
      | .kernel_trap _ _ => trivial
  · rename_i store
    rw [not_not] at store
    obtain ⟨found,run⟩ := cow_entry_pure me.page_table stval.toNat k.mm
    rw [run_seq (run_current running),run_seq (onMm_ok run)]
    cases found with
    | some entry =>
      have quiet : Quiet (do onMm (handle_cow_fault entry); return 0 : K Nat) :=
        guarded_bind (quiet_onMm _) fun _ => guarded_pure _
      exact (quiet.turn k).mono fun r label may => .inl ⟨may.1,may.2,store,entry,run⟩
    | none =>
      refine (do_segfault_turn running scause stval).mono fun r label may => .inr ⟨may.1,may.2,?_⟩
      rintro ⟨_,entry,other⟩
      rw [run] at other
      cases other

/-- The system calls other than exit, fork and wait. -/
theorem dispatch_quiet {number : Nat} (args : Fin 6 → Nat) (not_exit : ¬ (number = SYS_EXIT ∨ number = SYS_EXIT_GROUP))
    (not_fork : number ≠ SYS_FORK) (not_wait : number ≠ SYS_WAIT) : Quiet (dispatch number args) := by
  unfold dispatch
  rw [if_neg not_exit,if_neg not_fork,if_neg not_wait]
  have asked (f : Process → Nat) : Quiet (do return f (← current)) := guarded_bind quiet_current fun _ => guarded_pure _
  exact guarded_ite (quiet_sys_getcwd _ _) <| guarded_ite (quiet_sys_read _ _ _) <| guarded_ite (quiet_sys_write _ _ _) <|
    guarded_ite (quiet_sys_uname _) <| guarded_ite (quiet_sys_munmap _ _) <| guarded_ite (asked _) <|
    guarded_ite (asked _) <| guarded_ite (guarded_pure _) <| guarded_ite (asked _) <| guarded_ite (quiet_sys_brk _) <|
    guarded_ite quiet_sys_exec <| guarded_ite (quiet_sys_mmap _ _ _ _ _ _) <| guarded_pure _

theorem dispatch_exit {number : Nat} (args : Fin 6 → Nat) (exits : number = SYS_EXIT ∨ number = SYS_EXIT_GROUP) :
    dispatch number args = sys_exit (args 0) := by
  unfold dispatch
  rcases exits with rfl | rfl
  · rfl
  · rfl

theorem dispatch_fork (args : Fin 6 → Nat) : dispatch SYS_FORK args = sys_fork := rfl

theorem dispatch_wait (args : Fin 6 → Nat) : dispatch SYS_WAIT args = sys_wait (args 0) := rfl

theorem dispatch_turn {k : Kernel} {me : Process} (running : k.process_list k.current = some me) (number : Nat)
    (args : Fin 6 → Nat) :
    Turn k ((dispatch number args).run k) (TrapTurn k me 8 0 number (args 0)) := by
  unfold TrapTurn
  by_cases exits : number = SYS_EXIT ∨ number = SYS_EXIT_GROUP
  · rw [dispatch_exit args exits]
    refine (sys_exit_turn running (args 0)).mono fun r label may => ?_
    rw [if_pos rfl,if_pos exits]
    exact may
  by_cases forks : number = SYS_FORK
  · subst forks
    rw [dispatch_fork]
    refine (sys_fork_turn running).mono fun r label may => ?_
    rw [if_pos rfl,if_neg exits,if_pos rfl]
    exact may
  by_cases waits : number = SYS_WAIT
  · subst waits
    rw [dispatch_wait]
    refine (sys_wait_turn running (args 0)).mono fun r label may => ?_
    rw [if_pos rfl,if_neg exits,if_neg forks,if_pos rfl]
    exact may
  · refine ((dispatch_quiet args exits forks waits).turn k).mono fun r label may => ?_
    rw [if_pos rfl,if_neg exits,if_neg forks,if_neg waits]
    exact may

/-- The registers that the stack image of the running process holds. -/
def trapped (k : Kernel) (me : Process) : TrapFrame := TrapFrame.image k.mm.mem (me.kernel_sp-TrapFrame.SIZE)

theorem trap_handler_turn {k : Kernel} {me : Process} (running : k.process_list k.current = some me)
    (scause stval : BitVec 64) :
    Turn k ((trap_handler scause stval).run k)
      (TrapTurn k me scause stval ((trapped k me).regs 17).toNat (syscall_args (trapped k me) 0)) := by
  unfold trap_handler
  have stack := onMm_ok (TrapFrame.run_read_from_stack (me.kernel_sp-TrapFrame.SIZE) k.mm)
  rw [run_seq (run_current running),run_seq stack,run_seq (run_update_current running _)]
  have same := slots_saved running
  have running' : (saved k me).process_list (saved k me).current = some { me with trap_frame := trapped k me } := by
    simp [saved,trapped]
  have begin' : procs (saved k me) = procs k := by
    unfold procs
    rw [same]
    rfl
  change Turn k (EStateM.run _ (saved k me)) _
  refine Turn.start (show Turn (saved k me) _ _ from ?_) begin' rfl
  split
  · rename_i timer
    refine (quiet_timer_tick.turn _).mono fun r label may => ?_
    unfold TrapTurn
    rw [if_neg (by rintro rfl; simp at timer)]
    refine .inl ⟨may.1,may.2,?_⟩
    rintro (rfl | rfl | ⟨rfl,_⟩) <;> simp at timer
  split
  · rename_i call
    subst call
    refine (dispatch_turn running' _ _).mono fun r label may => ?_
    unfold TrapTurn at may ⊢
    rw [if_pos rfl] at may ⊢
    rw [same] at may
    exact may
  split
  · rename_i not_call fault
    refine (page_fault_turn running' scause stval).mono fun r label may => ?_
    unfold TrapTurn
    rw [if_neg not_call]
    rcases may with ⟨returns,quiet,store,pending⟩ | ⟨gone,dies,fatal⟩
    · refine .inl ⟨returns,quiet,?_⟩
      rintro (load | fetch | ⟨_,fatal⟩)
      · rw [store] at load
        cases load
      · rw [store] at fetch
        cases fetch
      · exact fatal pending
    · refine .inr ⟨gone,dies,?_⟩
      rcases fault with load | fetch | store
      · exact .inl load
      · exact .inr (.inl fetch)
      · exact .inr (.inr ⟨store,fun pending => fatal ⟨store,pending⟩⟩)
  · trivial

/-- The way a trap ends: back in the same process with a result, in another
    process, or in a shutdown. -/
def TrapEnds (k : Kernel) (L : Option Nat → Label → Prop) : Outcome → Prop
  | .user k' => ∃ r label, L r label ∧ Step (procs k) label (procs k') ∧ (r.isSome → k'.current = k.current)
  | .halted .shutdown k' => Stuck (procs k) (slots k'.process_list)
  | .halted _ _ => True

theorem procs_trap_return (frame_base result : Nat) (k : Kernel) : procs (trap_return frame_base result k) = procs k := by
  unfold trap_return
  split
  · rfl
  · rfl

theorem procs_trap_exit_restore (sp : Nat) (k : Kernel) : procs (trap_exit_restore sp k) = procs k := rfl

theorem trap_ends {k : Kernel} {me : Process} (running : k.process_list k.current = some me) (ctx : Context)
    (scause stval : BitVec 64) :
    TrapEnds k (TrapTurn (trap_entry ctx scause stval k) me scause stval
      ((trapped (trap_entry ctx scause stval k) me).regs 17).toNat (syscall_args (trapped (trap_entry ctx scause stval k) me) 0)) (trap ctx scause stval k) := by
  have turn := trap_handler_turn (k := trap_entry ctx scause stval k) running scause stval
  unfold trap
  dsimp only
  cases run : (trap_handler scause stval).run (trap_entry ctx scause stval k) with
  | ok r k' =>
    rw [run] at turn
    obtain ⟨label,may,step,stays,_⟩ := turn
    rw [run_seq run,run_seq (EStateM.run_get _),EStateM.run_pure]
    refine ⟨some r,label,may,?_,fun _ => ?_⟩
    · rw [procs_trap_exit_restore,procs_trap_return]
      exact step
    · exact (congrArg System.current (procs_trap_return _ r k')).trans stays
  | error e k' =>
    rw [run] at turn
    rw [run_seq_error run]
    match e with
    | .restore sp =>
      obtain ⟨label,may,step⟩ := turn
      refine ⟨none,label,may,?_,by simp⟩
      rw [procs_trap_exit_restore]
      exact step
    | .shutdown => exact turn
    | .panicked _ => trivial
    | .unexpected_trap _ => trivial
    | .kernel_trap _ _ => trivial

/-- What a whole event does to the system. -/
def Ends (k : Kernel) : Outcome → Prop
  | .user k' => ∃ label, Step (procs k) label (procs k')
  | .halted .shutdown k' => Stuck (procs k) (slots k'.process_list)
  | .halted _ _ => True

theorem TrapEnds.ends {k : Kernel} {L : Option Nat → Label → Prop} {outcome : Outcome} (trap : TrapEnds k L outcome) :
    Ends k outcome := by
  match outcome with
  | .user k' =>
    obtain ⟨_,label,_,step,_⟩ := trap
    exact ⟨label,step⟩
  | .halted .shutdown k' => exact trap
  | .halted (.panicked _) _ => trivial
  | .halted (.restore _) _ => trivial
  | .halted (.unexpected_trap _) _ => trivial
  | .halted (.kernel_trap _ _) _ => trivial

theorem access_ends {k : Kernel} {me : Process} (running : k.process_list k.current = some me) (ctx : Context)
    (kind : Access) (va : BitVec 64) {done : Nat → Kernel} (same : ∀ pa, procs (done pa) = procs k) :
    Ends k (access ctx kind va k done) := by
  unfold access
  cases translate k.hart k.mm.mem .user kind va.toNat with
  | some pa => exact ⟨.quiet,by rw [same pa]; exact .quiet _⟩
  | none => exact (trap_ends running ctx _ _).ends

/-- One event of the machine is one step of the life cycle. -/
theorem step_ends {k : Kernel} {me : Process} (running : k.process_list k.current = some me) (e : Event) :
    Ends k (step e k) := by
  unfold step
  cases e.action with
  | load va => exact access_ends running e.ctx .load va fun _ => rfl
  | fetch va => exact access_ends running e.ctx .fetch va fun _ => rfl
  | store va value => exact access_ends running e.ctx .store va fun _ => rfl
  | ecall => exact (trap_ends running e.ctx _ _).ends
  | timer => exact (trap_ends running e.ctx _ _).ends
  | exception cause => exact (trap_ends running e.ctx _ _).ends

/-! ### Boot -/

/-- The system that the boot leaves: init alone, running. -/
theorem boot_procs {cfg : Config} {k : Kernel} (run : boot cfg = .user k) :
    procs k = ⟨Function.update (fun _ => none) 0 (some ⟨1,0,.Running⟩),0,2⟩ := by
  unfold boot rust_main at run
  cases memory : (boot_memory cfg).run (reset cfg).mm with
  | error e m =>
    rw [run_seq_error (e := .panicked e) (t := { reset cfg with mm := m }) (by rw [run_onMm,memory])] at run
    cases run
  | ok made m =>
    have pid : alloc_pid.run { reset cfg with mm := m } = .ok 1 { reset cfg with mm := m, next_pid := 2 } := rfl
    rw [run_seq (onMm_ok memory),run_seq pid,run_seq (EStateM.run_modify _ _),
      run_seq (onMm_ok (TrapFrame.run_write_to_stack _ _ _)),run_raise] at run
    have equal := Outcome.user.inj run
    rw [← equal,procs_trap_exit_restore]
    simp only [procs,slots_update]
    rfl

theorem boot_sound {cfg : Config} {k : Kernel} (run : boot cfg = .user k) : Sound (procs k) := by
  rw [boot_procs run]
  have only : ∀ {i : Fin MAX_PROCESSES} {h : Header},
      Function.update (fun _ => none) 0 (some ⟨1,0,.Running⟩) i = some h → i = 0 ∧ h = ⟨1,0,.Running⟩ := by
    intro i h slot
    by_cases zero : i = 0
    · subst zero
      exact ⟨rfl,by simpa [eq_comm] using slot⟩
    · simp [Function.update_of_ne zero] at slot
  refine ⟨⟨?_,?_,?_,?_,?_,?_⟩,⟨⟨1,0,.Running⟩,by simp,rfl⟩,fun slot _ => (only slot).1⟩
  · intro i j a b first second _
    rw [(only first).1,(only second).1]
  · intro i h slot
    simp [(only slot).2]
  · intro i h slot
    simp [(only slot).2]
  · intro i h slot _ other
    simp [(only slot).2] at other
  · exact ⟨0,⟨1,0,.Running⟩,by simp,rfl,rfl,by simp⟩
  · intro i h slot blocked
    simp [(only slot).2] at blocked

/-- The life-cycle invariant holds in every state reached, by whatever events. -/
theorem reachable_sound {cfg : Config} {allowed : Kernel → Event → Prop} {k : Kernel} (reached : Reachable cfg allowed k) :
    Sound (procs k) := by
  refine Reachable.invariant (I := fun k => Sound (procs k)) (fun k run => boot_sound run) ?_ reached
  intro k k' e _ sound _ run
  obtain ⟨me,slot,_⟩ := sound.running
  obtain ⟨p,running,_⟩ := slots_inv slot
  have ends := step_ends running e
  rw [run] at ends
  obtain ⟨label,step⟩ := ends
  exact step_sound sound step

end Unit00.Steps
