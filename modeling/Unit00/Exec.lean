import Unit00.Contexts
import Unit00.Gaps

/-!
What exec comes to. The context of a process that makes a system call is on its
kernel stack, and the kernel returns to it from there; what exec stores in the
trap frame of the process record is lost. Exec forgets the heap and the areas
of the process but not their pages; the break and the mappings of the new program
run into these for good.
-/
namespace Unit00.Exec
open Unit00.Memory Unit00.Execution Unit00.Frame Unit00.Paging Unit00.Paging.PTEntry Unit00.Trees Unit00.Ownership
open Unit00.Mirror Unit00.Space Unit00.Pages Unit00.Mmu Unit00.Task Unit00.Scheduler Unit00.Syscall Unit00.Machine
open Unit00.Lifecycle Unit00.Steps Unit00.Invariant Unit00.Services Unit00.Traps Unit00.View Unit00.Boot Unit00.Runs
open Unit00.Stages Unit00.Contexts
open Unit00.Eager (pageUp)

/-! ### Kernel stacks, whatever happens to memory -/

/-- There is room for a trap frame on every kernel stack. -/
def Tall (k : Kernel) : Prop := ∀ i p, k.process_list i = some p → TrapFrame.SIZE ≤ p.kernel_sp

/-- Kernel code returns to the process on the stack where it was, or restores a process from its own stack. -/
def Lands {α : Type} (k : Kernel) : EStateM.Result Diverge Kernel α → Prop
  | .ok _ k' => Tall k' ∧ k'.hart = k.hart ∧
    ∃ p q, k.process_list k.current = some p ∧ k'.process_list k'.current = some q ∧ q.kernel_sp = p.kernel_sp
  | .error (.restore sp) k' => Tall k' ∧ ∃ q, k'.process_list k'.current = some q ∧ sp = q.kernel_sp-TrapFrame.SIZE
  | .error _ _ => True

section
variable {α β : Type} {k k' : Kernel} {me : Process}

theorem Tall.kept (tall : Tall k) (kept : Kept k k') : Tall k' := by
  intro i p slot
  by_cases mine : i = k.current
  · subst mine
    cases before : k.process_list k.current with
    | none =>
      rw [kept.absent before] at slot
      cases slot
    | some q =>
      obtain ⟨q',slot',same⟩ := kept.mine q before
      rw [slot,Option.some.injEq] at slot'
      rw [slot',same.kernel_sp]
      exact tall _ q before
  · rw [kept.others i mine] at slot
    exact tall i p slot

theorem Tall.update (tall : Tall k) {i : Fin MAX_PROCESSES} {q : Process} (high : TrapFrame.SIZE ≤ q.kernel_sp) :
    ∀ j p, Function.update k.process_list i (some q) j = some p → TrapFrame.SIZE ≤ p.kernel_sp := by
  intro j p slot
  by_cases here : j = i
  · rw [here,Function.update_self,Option.some.injEq] at slot
    rw [← slot]
    exact high
  · rw [Function.update_of_ne here] at slot
    exact tall j p slot

theorem Quiet.lands {x : K α} (quiet : Quiet x) (tall : Tall k) (running : k.process_list k.current = some me) :
    Lands k (x.run k) := by
  cases run : x.run k with
  | ok a k' =>
    have kept := quiet.ok run
    obtain ⟨q,slot,same⟩ := kept.mine me running
    exact ⟨tall.kept kept,kept.hart,me,q,running,by rw [kept.current]; exact slot,same.kernel_sp⟩
  | error e k' =>
    have fatal := quiet.error run
    match e with
    | .restore _ => exact fatal.elim
    | .shutdown => trivial
    | .panicked _ => trivial
    | .unexpected_trap _ => trivial
    | .kernel_trap _ _ => trivial

/-- The scheduler restores the process that it picks. -/
theorem schedule_lands (k0 : Kernel) (tall : Tall k) (running : k.process_list k.current = some me) :
    Lands k0 ((schedule : K α).run k) := by
  have high := tall _ me running
  rcases schedule_cases running with ⟨run,_⟩ | ⟨j,next,run,slot,_,_⟩
  · rw [run]
    trivial
  · rw [run]
    have tall' : Tall (saved k me) := tall.update high
    have here : (resumed (saved k me) j next).process_list (resumed (saved k me) j next).current =
        some { next with state := .Running } := Function.update_self _ _ _
    exact ⟨tall'.update (tall' j next slot),_,here,rfl⟩

theorem Tall.reparented (tall : Tall k) (pid : Nat) : Tall (reparented k pid) := by
  intro i p slot
  obtain ⟨q,before,same⟩ := Option.map_eq_some_iff.mp (show (k.process_list i).map (adopt pid) = some p from slot)
  rw [← same]
  have keeps : (adopt pid q).kernel_sp = q.kernel_sp := by
    unfold adopt
    split <;> rfl
  rw [keeps]
  exact tall i q before

theorem Tall.buried (tall : Tall k) (running : k.process_list k.current = some me) (code : Nat) : Tall (buried k me code) := by
  have high := tall _ me running
  have dead : ∀ j p, Function.update k.process_list k.current (some { me with state := .Zombie code }) j = some p →
      TrapFrame.SIZE ≤ p.kernel_sp := tall.update high
  intro i p slot
  have woken : wakeTable (Function.update k.process_list k.current (some { me with state := .Zombie code })) me.parent_pid i =
      some p := slot
  unfold wakeTable at woken
  cases found : (List.finRange MAX_PROCESSES).find? (waiting me.parent_pid
      (Function.update k.process_list k.current (some { me with state := .Zombie code }))) with
  | none =>
    rw [found] at woken
    exact dead i p woken
  | some j =>
    rw [found] at woken
    dsimp only at woken
    by_cases here : i = j
    · rw [here,Function.update_self] at woken
      obtain ⟨q,before,same⟩ := Option.map_eq_some_iff.mp woken
      rw [← same]
      exact dead j q before
    · rw [Function.update_of_ne here] at woken
      exact dead i p woken

/-- A death, once the leaves of the process are dealt with. -/
theorem die_lands (k0 : Kernel) (tall : Tall k) (running : k.process_list k.current = some me) (code : Nat) :
    Lands k0 ((do
      update_current fun proc => { proc with state := .Zombie code }
      wake_parent
      schedule : K α).run k) := by
  obtain ⟨same,dead⟩ := run_die (α := α) running code
  rw [same]
  exact schedule_lands k0 (tall.buried running code) dead

theorem sys_exit_lands (tall : Tall k) (running : k.process_list k.current = some me) (code : Nat) :
    Lands k ((sys_exit code : K α).run k) := by
  have adopted : (reparented k me.pid).process_list k.current = some (adopt me.pid me) := by
    simp [reparented,mapTable,running]
  unfold sys_exit
  rw [run_seq (run_reparent running),run_seq (run_current adopted)]
  cases leaves : ((adopt me.pid me).page_table.for_each_leaf 0 KERNEL_VPN2_MIN exit_leaf).run k.mm with
  | error e m =>
    rw [run_seq_error (e := .panicked e) (t := { reparented k me.pid with mm := m })]
    · trivial
    · rw [run_onMm]
      simp only [reparented,leaves]
  | ok _ m =>
    rw [run_seq (onMm_ok (k := reparented k me.pid) leaves)]
    exact die_lands (k := { reparented k me.pid with mm := m }) k (tall.reparented me.pid) adopted code

theorem Quiet.then_lands {k0 : Kernel} {x : K β} {f : β → K α} (quiet : Quiet x)
    (rest : ∀ b k', Kept k k' → Lands k0 ((f b).run k')) : Lands k0 ((x >>= f).run k) := by
  cases run : x.run k with
  | ok b k' =>
    rw [run_seq run]
    exact rest b k' (quiet.ok run)
  | error e k' =>
    have fatal := quiet.error run
    rw [run_seq_error run]
    match e with
    | .restore _ => exact fatal.elim
    | .shutdown => trivial
    | .panicked _ => trivial
    | .unexpected_trap _ => trivial
    | .kernel_trap _ _ => trivial

theorem do_segfault_lands (tall : Tall k) (running : k.process_list k.current = some me) (scause stval : BitVec 64) :
    Lands k ((do_segfault scause stval : K α).run k) := by
  unfold do_segfault
  refine Quiet.then_lands (quiet_puts _) fun _ k1 kept1 => Quiet.then_lands (quiet_print_hex _) fun _ k2 kept2 =>
    Quiet.then_lands (quiet_puts _) fun _ k3 kept3 => Quiet.then_lands (quiet_print_hex _) fun _ k4 kept4 =>
    Quiet.then_lands (quiet_puts _) fun _ k5 kept5 => ?_
  have kept : Kept k k5 := (((kept1.trans kept2).trans kept3).trans kept4).trans kept5
  obtain ⟨me5,running5,_⟩ := kept.mine me running
  rw [← kept.current] at running5
  have adopted : (reparented k5 me5.pid).process_list k5.current = some (adopt me5.pid me5) := by
    simp [reparented,mapTable,running5]
  rw [run_seq (run_reparent running5)]
  exact die_lands k ((tall.kept kept).reparented me5.pid) adopted 1

theorem sys_fork_lands (tall : Tall k) (running : k.process_list k.current = some me) (there : me.state ≠ .Gone) :
    Lands k (sys_fork.run k) := by
  unfold sys_fork
  rw [run_seq (EStateM.run_get _)]
  cases found : find_empty_slot k.process_list with
  | none => exact ⟨tall,rfl,me,me,running,running,rfl⟩
  | some idx =>
    have pid : alloc_pid.run k = .ok k.next_pid { k with next_pid := k.next_pid+1 } := rfl
    dsimp only
    rw [run_seq pid,run_seq (run_current (k := { k with next_pid := k.next_pid+1 }) running)]
    cases memory : (fork_memory me.page_table).run k.mm with
    | error e m =>
      rw [run_seq_error (e := .panicked e) (t := { k with next_pid := k.next_pid+1, mm := m })]
      · trivial
      · rw [run_onMm]
        simp only [memory]
    | ok child m =>
      rw [run_seq (onMm_ok (k := { k with next_pid := k.next_pid+1 }) memory),run_seq (EStateM.run_modify _ _)]
      have size : TrapFrame.SIZE ≤ child.2+KERNEL_STACK_SIZE := by
        have fits : TrapFrame.SIZE ≤ KERNEL_STACK_SIZE := by decide
        omega
      refine ⟨tall.update size,rfl,me,?_⟩
      have here : k.current ≠ idx := by
        rintro rfl
        exact there (find_empty_slot_some found running)
      exact ⟨me,running,(Function.update_of_ne here _ _).trans running,rfl⟩

theorem reap_lands (tall : Tall k) (running : k.process_list k.current = some me) {child : Process} {idx : Fin MAX_PROCESSES}
    (slot : k.process_list idx = some child) (exit_code_ptr : Nat) : Lands k ((reap exit_code_ptr idx).run k) := by
  unfold reap
  rw [run_seq (EStateM.run_get _),slot]
  refine Quiet.then_lands (quiet_wait_status _ _) fun _ k1 kept1 => Quiet.then_lands (quiet_onMm _) fun _ k2 kept2 => ?_
  have kept := kept1.trans kept2
  rw [run_seq (EStateM.run_modify _ _)]
  obtain ⟨q,slotQ,same⟩ := kept.mine me running
  refine ⟨(tall.kept kept).update (tall idx child slot),kept.hart,me,?_⟩
  show ∃ q, _ ∧ Function.update k2.process_list idx _ k2.current = some q ∧ _
  rw [kept.current]
  by_cases here : k.current = idx
  · subst here
    rw [running,Option.some.injEq] at slot
    exact ⟨_,running,Function.update_self _ _ _,by rw [slot]⟩
  · exact ⟨q,running,(Function.update_of_ne here _ _).trans slotQ,same.kernel_sp⟩

theorem sys_wait_lands (tall : Tall k) (running : k.process_list k.current = some me) (exit_code_ptr : Nat) :
    Lands k ((sys_wait exit_code_ptr).run k) := by
  unfold sys_wait
  rw [run_seq (run_current running),run_seq (EStateM.run_get _)]
  dsimp only
  cases found : (List.finRange MAX_PROCESSES).find? (zombie_child k.process_list me.pid) with
  | some idx =>
    obtain ⟨child,_,slot,_,_⟩ := zombie_child_some (List.find?_some found)
    exact reap_lands tall running slot exit_code_ptr
  | none =>
    dsimp only
    split
    · rw [run_seq (run_update_current running _)]
      exact schedule_lands k (tall.update (tall _ me running)) (Function.update_self _ _ _)
    · exact ⟨tall,rfl,me,me,running,running,rfl⟩

theorem dispatch_lands (tall : Tall k) (running : k.process_list k.current = some me) (there : me.state ≠ .Gone) (number : Nat)
    (args : Fin 6 → Nat) : Lands k ((dispatch number args).run k) := by
  by_cases exits : number = SYS_EXIT ∨ number = SYS_EXIT_GROUP
  · rw [dispatch_exit args exits]
    exact sys_exit_lands tall running _
  by_cases forks : number = SYS_FORK
  · subst forks
    exact sys_fork_lands tall running there
  by_cases waits : number = SYS_WAIT
  · subst waits
    exact sys_wait_lands tall running _
  · exact Quiet.lands (dispatch_quiet args exits forks waits) tall running

theorem page_fault_lands (tall : Tall k) (running : k.process_list k.current = some me) (scause stval : BitVec 64) :
    Lands k ((page_fault_handler scause stval).run k) := by
  unfold page_fault_handler
  split
  · have fatal := do_segfault_lands (α := PUnit) tall running scause stval
    have never := do_segfault_turn (α := PUnit) running scause stval
    cases run : (do_segfault scause stval : K PUnit).run k with
    | ok a k' =>
      rw [run] at never
      obtain ⟨label,⟨impossible,_⟩,_⟩ := never
      cases impossible
    | error e k' =>
      rw [run] at fatal
      rw [run_seq_error run]
      match e with
      | .restore _ => exact fatal
      | .shutdown => trivial
      | .panicked _ => trivial
      | .unexpected_trap _ => trivial
      | .kernel_trap _ _ => trivial
  · obtain ⟨found,run⟩ := cow_entry_pure me.page_table stval.toNat k.mm
    rw [run_seq (run_current running),run_seq (onMm_ok run)]
    cases found with
    | some entry => exact Quiet.lands (guarded_bind (quiet_onMm _) fun _ => guarded_pure _) tall running
    | none => exact do_segfault_lands tall running scause stval

theorem Lands.start {k0 : Kernel} {p q : Process} {result : EStateM.Result Diverge Kernel α} (lands : Lands k result)
    (hart : k.hart = k0.hart) (old : k0.process_list k0.current = some p) (new : k.process_list k.current = some q)
    (same : q.kernel_sp = p.kernel_sp) : Lands k0 result := by
  match result with
  | .ok a k' =>
    obtain ⟨tall,hart',p',q',slotP,slotQ,equal⟩ := lands
    rw [new,Option.some.injEq] at slotP
    exact ⟨tall,hart'.trans hart,p,q',old,slotQ,by rw [equal,← slotP,same]⟩
  | .error (.restore sp) k' => exact lands
  | .error (.panicked _) _ => trivial
  | .error .shutdown _ => trivial
  | .error (.unexpected_trap _) _ => trivial
  | .error (.kernel_trap _ _) _ => trivial

theorem trap_handler_lands (tall : Tall k) (running : k.process_list k.current = some me) (there : me.state ≠ .Gone)
    (scause stval : BitVec 64) : Lands k ((trap_handler scause stval).run k) := by
  have stack := onMm_ok (TrapFrame.run_read_from_stack (me.kernel_sp-TrapFrame.SIZE) k.mm)
  unfold trap_handler
  rw [run_seq (run_current running),run_seq stack,run_seq (run_update_current running _)]
  have tall' : Tall (saved k me) := tall.update (tall _ me running)
  have running' : (saved k me).process_list (saved k me).current = some { me with trap_frame := trapped k me } :=
    Function.update_self _ _ _
  change Lands k (EStateM.run _ (saved k me))
  refine Lands.start (k := saved k me) ?_ rfl running running' rfl
  split
  · exact Quiet.lands quiet_timer_tick tall' running'
  split
  · exact dispatch_lands tall' running' there _ _
  split
  · exact page_fault_lands tall' running' scause stval
  · trivial

end

/-- Every kernel stack has room for a trap frame, and the hart has the stack of the running process. -/
structure Stacked (k : Kernel) : Prop where
  tall : Tall k
  sscratch : ∀ me, k.process_list k.current = some me → k.hart.sscratch = me.kernel_sp

theorem trap_stacked {k k' : Kernel} {me : Process} (stacked : Stacked k) (running : k.process_list k.current = some me)
    (there : me.state ≠ .Gone) {ctx : Context} {scause stval : BitVec 64} (run : trap ctx scause stval k = .user k') :
    Stacked k' := by
  have lands := trap_handler_lands (k := trap_entry ctx scause stval k) stacked.tall running there scause stval
  have high := stacked.tall _ me running
  have scratch := stacked.sscratch me running
  unfold trap at run
  dsimp only at run
  cases handled : (trap_handler scause stval).run (trap_entry ctx scause stval k) with
  | ok r kh =>
    rw [handled] at lands
    rw [run_seq handled,run_seq (EStateM.run_get _),EStateM.run_pure] at run
    obtain ⟨tall,_,p,q,slotP,slotQ,same⟩ := lands
    have rest : (trap_return (k.hart.sscratch-TrapFrame.SIZE) r kh).process_list = kh.process_list ∧
        (trap_return (k.hart.sscratch-TrapFrame.SIZE) r kh).current = kh.current := by
      unfold trap_return
      dsimp only
      split <;> exact ⟨rfl,rfl⟩
    rw [← Outcome.user.inj run]
    refine ⟨fun i p slot => tall i p (by rw [← rest.1]; exact slot),fun me' slot => ?_⟩
    have here : kh.process_list kh.current = some me' := by
      rw [← rest.1,← rest.2]
      exact slot
    rw [slotQ,Option.some.injEq] at here
    have first : k.process_list k.current = some p := slotP
    rw [running,Option.some.injEq] at first
    show k.hart.sscratch-TrapFrame.SIZE+TrapFrame.SIZE = me'.kernel_sp
    rw [← here,same,← first,← scratch]
    omega
  | error e kh =>
    rw [handled] at lands
    rw [run_seq_error handled] at run
    match e with
    | .restore sp =>
      obtain ⟨tall,q,slotQ,place⟩ := lands
      rw [← Outcome.user.inj run]
      refine ⟨tall,fun me' slot => ?_⟩
      have here : kh.process_list kh.current = some me' := slot
      have high' := tall _ me' here
      rw [slotQ,Option.some.injEq] at here
      show sp+TrapFrame.SIZE = me'.kernel_sp
      rw [place,here]
      omega
    | .panicked _ => cases run
    | .shutdown => cases run
    | .unexpected_trap _ => cases run
    | .kernel_trap _ _ => cases run

/-- The hart has the kernel stack of the running process in every state reached, by whatever events. -/
theorem reachable_stacked {cfg : Config} {allowed : Kernel → Event → Prop} {k : Kernel} (reached : Reachable cfg allowed k) :
    Stacked k := by
  induction reached with
  | boot run =>
    obtain ⟨r,s,m,g,rfl,launch⟩ := boot_launch false run
    refine ⟨fun i p slot => ?_,fun me slot => launch.user.sscratch me slot⟩
    rw [(launched_only slot).2]
    show TrapFrame.SIZE ≤ s+KERNEL_STACK_SIZE
    have fits : TrapFrame.SIZE ≤ KERNEL_STACK_SIZE := by decide
    omega
  | @step k k' e before may run ih =>
    obtain ⟨me,running,awake⟩ := reachable_awake before
    rw [step_eq] at run
    cases traps : trapOf k e with
    | none =>
      rw [traps] at run
      obtain ⟨mm,rest⟩ := accessed_rest k e
      rw [← Outcome.user.inj run,rest]
      exact ⟨ih.tall,ih.sscratch⟩
    | some cause =>
      rw [traps] at run
      exact trap_stacked ih running (by rw [awake]; simp) run

/-! ### The context after exec -/

/-- Exec comes back to the instruction after the call, with the stack pointer of the caller. -/
theorem exec_returns {k : Kernel} {me : Process} {e : Event} (stacked : Stacked k) (running : k.process_list k.current = some me)
    (calls : Calls e SYS_EXEC) :
    ∃ k', step e k = .user k' ∧ k'.hart.sepc = e.ctx.pc+4 ∧ k'.hart.regs 2 = e.ctx.regs 2 := by
  have scratch := stacked.sscratch me running
  have image : trapped (trap_entry e.ctx 8 0 k) me = frame_of e.ctx 8 0 := by
    unfold trapped trap_entry
    dsimp only
    rw [scratch]
    exact image_words _ _ _
  have number : (frame_of e.ctx 8 0).regs 17 = e.ctx.regs 17 := regs_frame_of e.ctx 8 0 (by decide)
  have running' : (saved (trap_entry e.ctx 8 0 k) me).process_list k.current = some { me with trap_frame := frame_of e.ctx 8 0 } := by
    rw [← image]
    exact Function.update_self _ _ _
  have handled : ∃ kh, (trap_handler 8 0).run (trap_entry e.ctx 8 0 k) = .ok 0 kh ∧ kh.mm = (trap_entry e.ctx 8 0 k).mm := by
    have stack := onMm_ok (TrapFrame.run_read_from_stack (me.kernel_sp-TrapFrame.SIZE) (trap_entry e.ctx 8 0 k).mm)
    unfold trap_handler
    rw [run_seq (run_current (k := trap_entry e.ctx 8 0 k) running),run_seq stack,
      run_seq (run_update_current (k := trap_entry e.ctx 8 0 k) running _),if_neg (by decide),if_pos rfl]
    have exec : ((trapped (trap_entry e.ctx 8 0 k) me).regs 17).toNat = SYS_EXEC := by
      rw [image,number]
      exact calls.2
    change ∃ kh, (dispatch ((trapped (trap_entry e.ctx 8 0 k) me).regs 17).toNat _).run (saved (trap_entry e.ctx 8 0 k) me) = _ ∧ _
    rw [exec]
    change ∃ kh, sys_exec.run (saved (trap_entry e.ctx 8 0 k) me) = _ ∧ _
    unfold sys_exec
    rw [run_seq (run_update_current running' _)]
    exact ⟨_,rfl,rfl⟩
  obtain ⟨kh,handled,same⟩ := handled
  refine ⟨trap_exit_restore (k.hart.sscratch-TrapFrame.SIZE) (trap_return (k.hart.sscratch-TrapFrame.SIZE) 0 kh),?_,?_⟩
  · unfold step
    rw [calls.1]
    dsimp only
    unfold trap
    dsimp only
    rw [run_seq handled,run_seq (EStateM.run_get _),EStateM.run_pure]
    rfl
  · have frame : TrapFrame.image kh.mm.mem (k.hart.sscratch-TrapFrame.SIZE) = frame_of e.ctx 8 0 := by
      rw [same]
      exact image_words _ _ _
    have back := image_return (k.hart.sscratch-TrapFrame.SIZE) 0 kh
    rw [frame,if_pos (show (frame_of e.ctx 8 0).scause = 8 from rfl)] at back
    have restored : Restored (trap_exit_restore (k.hart.sscratch-TrapFrame.SIZE) (trap_return (k.hart.sscratch-TrapFrame.SIZE) 0 kh))
        (answered e.ctx 0) := restored_of (by rw [back]; exact (holds_frame _ _ _).answered 0)
    refine ⟨restored.sepc,?_⟩
    rw [restored.regs 2 (by decide)]
    show Function.update e.ctx.regs TrapFrame.REG_A0 (BitVec.ofNat 64 0) 2 = _
    rw [Function.update_of_ne (by decide)]

/-- The process goes on at the entry point of the program with a fresh stack pointer. -/
def TakesEffect (k' : Kernel) : Prop := k'.hart.sepc = 0x10000 ∧ k'.hart.regs 2 = 0x3F001000

/-- Exec always comes back, and takes effect in user mode only when the caller was at that place already: its call four
    bytes below the entry point, its stack pointer the fresh one. -/
theorem exec_takes_effect_iff {cfg : Config} {k : Kernel} {e : Event} (reached : Reachable cfg WaitsWell k)
    (calls : Calls e SYS_EXEC) :
    ∃ k', step e k = .user k' ∧ (TakesEffect k' ↔ e.ctx.pc = 0xFFFC ∧ e.ctx.regs 2 = 0x3F001000) := by
  obtain ⟨me,running,_⟩ := reachable_awake reached
  obtain ⟨k',run,pc,sp⟩ := exec_returns (reachable_stacked reached) running calls
  refine ⟨k',run,?_⟩
  unfold TakesEffect
  rw [pc,sp]
  refine and_congr_left fun _ => ⟨fun same => ?_,fun same => ?_⟩
  · bv_omega
  · rw [same]
    decide

/-- An exec call from somewhere in a program. -/
def execEvent : Event := ⟨⟨Function.update (fun _ => 0) 17 221,0x10040,0⟩,.ecall⟩

theorem exec_takes_effect_after_boot :
    ∃ k k', Reachable (sample true) WaitsWell k ∧ step execEvent k = .user k' ∧
      (TakesEffect k' ↔ execEvent.ctx.pc = 0xFFFC ∧ execEvent.ctx.regs 2 = 0x3F001000) := by
  obtain ⟨k,booted⟩ := boot_succeeds (sample_fits true)
  have reached : Reachable (sample true) WaitsWell k := .boot booted
  obtain ⟨k',run,same⟩ := exec_takes_effect_iff reached (e := execEvent) ⟨rfl,by decide⟩
  exact ⟨k,k',reached,run,same⟩

theorem exec_without_effect :
    ∃ k k', Reachable (sample true) WaitsWell k ∧ Calls execEvent SYS_EXEC ∧ step execEvent k = .user k' ∧
      ¬ TakesEffect k' := by
  obtain ⟨k,booted⟩ := boot_succeeds (sample_fits true)
  have reached : Reachable (sample true) WaitsWell k := .boot booted
  have calls : Calls execEvent SYS_EXEC := ⟨rfl,by decide⟩
  obtain ⟨me,running,_⟩ := reachable_awake reached
  obtain ⟨k',run,pc,_⟩ := exec_returns (reachable_stacked reached) running calls
  refine ⟨k,k',reached,calls,run,fun effect => ?_⟩
  have same := pc.symm.trans effect.1
  exact absurd same (by decide)

/-! ### The records after exec -/

/-- A page of the heap or of an mmap area of a process, by its records. -/
def Described (p : Process) (n : Nat) : Prop :=
  (p.heap_start ≤ n*4096 ∧ n*4096 < mask_page (p.heap_end+4095)) ∨
  ∃ i, (p.mmap_areas i).used = true ∧ (p.mmap_areas i).start ≤ n*4096 ∧ n*4096 < (p.mmap_areas i).area_end

/-- The pages where a process may have its heap and its mmap areas. -/
def Window (p : Process) (n : Nat) : Prop :=
  (p.heap_start ≤ n*4096 ∧ n*4096 < USER_HEAP_LIMIT) ∨ (USER_MMAP_START ≤ n*4096 ∧ n*4096 < USER_MMAP_LIMIT)

/-- In these windows the user leaves of a process are exactly the pages that its records describe. -/
def InStep (m : Mm) (p : Process) : Prop :=
  ∀ n, Window p n → ((userLeaf m p.page_table (n*4096)).isSome ↔ Described p n)

theorem exec_describes_nothing {p : Process} {n : Nat} :
    ¬ Described { p with heap_end := p.heap_start, mmap_areas := fun _ => .EMPTY } n := by
  rintro (⟨low,high⟩ | ⟨_,used,_⟩)
  · unfold mask_page at high
    dsimp only at low high
    omega
  · cases used

/-- A process after exec. -/
def execed (p : Process) : Process :=
  { p with
    trap_frame := { p.trap_frame with sepc := 0x10000 }.set_sp 0x3F001000
    heap_end := p.heap_start
    mmap_areas := fun _ => .EMPTY }

theorem run_exec {k : Kernel} {me : Process} (running : k.process_list k.current = some me) (args : Fin 6 → Nat) :
    (dispatch SYS_EXEC args).run k =
      .ok 0 { k with process_list := Function.update k.process_list k.current (some (execed me)) } := by
  show sys_exec.run k = _
  unfold sys_exec
  rw [run_seq (run_update_current running _)]
  rfl

/-- Exec keeps the records in step with the page table exactly when there was nothing to release: no page of the heap
    and no page of an area. -/
theorem exec_in_step_iff {k : Kernel} {me : Process} (running : k.process_list k.current = some me) (args : Fin 6 → Nat)
    (before : InStep k.mm me) :
    ∃ k' me', (dispatch SYS_EXEC args).run k = .ok 0 k' ∧ k'.process_list k'.current = some me' ∧
      (InStep k'.mm me' ↔ ∀ n, Window me n → ¬ Described me n) := by
  refine ⟨_,execed me,run_exec running args,Function.update_self _ _ _,?_⟩
  constructor
  · intro after n window described
    have leaf := (before n window).mpr described
    exact exec_describes_nothing (p := me) ((after n window).mp leaf)
  · intro nothing n window
    refine iff_of_false (fun leaf => nothing n window ((before n window).mp leaf)) ?_
    exact exec_describes_nothing (p := me)

/-- Memory with the tables of one heap page. -/
def heapMem : Mem :=
  store64 (store64 (store64 (fun _ => 0) (entry_at 0x80200000 0) (new_table 0x80201000)) (entry_at 0x80201000 0)
    (new_table 0x80202000)) (entry_at 0x80202000 0x20) (new_leaf 0x80203000 (PTEFlags.new true true false true))

/-- A process with one heap page. -/
def heapProcess : Process where
  pid := 1
  parent_pid := 0
  state := .Running
  page_table := ⟨0x80200000,alloc_frame⟩
  trap_frame := TrapFrame.new_user 0x10000 0x3F001000
  kernel_sp := 0x80210000
  kernel_stack_frame := 0x80208000
  heap_start := USER_HEAP_START
  heap_end := 0x21000
  mmap_areas := fun _ => .EMPTY

/-- A kernel that runs it. -/
def heapKernel : Kernel where
  mm := ⟨heapMem,0x80204000,fun _ => 1,0⟩
  process_list := Function.update (fun _ => none) 0 (some heapProcess)
  current := 0
  next_pid := 2
  tick_count := 0
  input := fun _ => 0
  output := []
  hart := ⟨fun _ => 0,0,0,0x80210000,heapProcess.page_table.satp_val,true⟩

theorem heap_leaf {n : Nat} (low : n < 2^18) :
    (userLeaf heapKernel.mm heapProcess.page_table (n*4096)).isSome ↔ n = 0x20 := by
  have page : pageOf (n*4096) = n := pageOf_page (by omega)
  have zeros : ∀ a, load64 (fun _ => 0) a = 0 := fun a => by
    unfold load64
    dsimp only
    decide
  have top : load64 heapMem (entry_at 0x80200000 (vpn (n*4096) 2)) = new_table 0x80201000 := by
    rw [show vpn (n*4096) 2 = 0 by rw [vpn_two,page]; omega]
    decide +kernel
  have second : vpn (n*4096) 1 = n/512 := by
    rw [vpn_one,page]
    omega
  have third : vpn (n*4096) 0 = n%512 := by rw [vpn_zero,page]
  have valid : is_valid (new_table 0x80201000) = true := by decide
  have next : ppn_to_addr (new_table 0x80201000) = 0x80201000 := by decide
  unfold userLeaf entryOf PageTable.lookup
  rw [run_seq (run_read _ _),show load64 heapKernel.mm.mem (entry_at heapProcess.page_table.root _) = _ from top,valid,next]
  rw [if_neg (by decide),run_seq (run_read _ _),second]
  by_cases mid : n/512 = 0
  · have entry : load64 heapKernel.mm.mem (entry_at 0x80201000 (n/512)) = new_table 0x80202000 := by
      rw [mid]
      decide +kernel
    have valid' : is_valid (new_table 0x80202000) = true := by decide
    have next' : ppn_to_addr (new_table 0x80202000) = 0x80202000 := by decide
    rw [entry,valid',next',third,if_neg (by decide),EStateM.run_pure]
    dsimp only
    by_cases here : n%512 = 0x20
    · have leaf : load64 heapKernel.mm.mem (entry_at 0x80202000 (n%512)) = new_leaf 0x80203000 (PTEFlags.new true true false true) := by
        rw [here]
        exact load64_store64 _ _ _
      rw [leaf]
      exact iff_of_true (by decide) (by omega)
    · have leaf : load64 heapKernel.mm.mem (entry_at 0x80202000 (n%512)) = 0 := by
        show load64 heapMem _ = 0
        unfold heapMem
        rw [load64_store64_off (by unfold entry_at; omega),load64_store64_off (by unfold entry_at; omega),
          load64_store64_off (by unfold entry_at; omega)]
        exact zeros _
      rw [leaf]
      exact iff_of_false (by decide) (by omega)
  · have entry : load64 heapKernel.mm.mem (entry_at 0x80201000 (n/512)) = 0 := by
      show load64 heapMem _ = 0
      unfold heapMem
      rw [load64_store64_off (by unfold entry_at; omega),load64_store64_off (by unfold entry_at; omega),
        load64_store64_off (by unfold entry_at; omega)]
      exact zeros _
    have invalid : is_valid 0 = false := by decide
    rw [entry,invalid]
    rw [if_pos (by decide),EStateM.run_pure]
    exact iff_of_false (by decide) (by omega)

theorem heap_described {n : Nat} : Described heapProcess n ↔ n = 0x20 := by
  have start : heapProcess.heap_start = 0x20000 := rfl
  have stop : mask_page (heapProcess.heap_end+4095) = 0x21000 := by decide
  unfold Described
  rw [start,stop]
  constructor
  · rintro (inside | ⟨_,used,_⟩)
    · omega
    · cases used
  · exact fun here => .inl (by omega)

theorem heap_in_step : InStep heapKernel.mm heapProcess := by
  intro n window
  have limit : USER_HEAP_LIMIT = 0x3e000000 := rfl
  have limit' : USER_MMAP_LIMIT = 0x3f000000 := rfl
  have low : n < 2^18 := by
    rcases window with inside | inside <;> omega
  rw [heap_leaf low,heap_described]

theorem heap_window : Window heapProcess 0x20 := .inl (by decide)

theorem exec_in_step_heap :
    InStep heapKernel.mm heapProcess ∧ ∃ k' me', (dispatch SYS_EXEC fun _ => 0).run heapKernel = .ok 0 k' ∧
      k'.process_list k'.current = some me' ∧ (InStep k'.mm me' ↔ ∀ n, Window heapProcess n → ¬ Described heapProcess n) :=
  ⟨heap_in_step,exec_in_step_iff rfl (fun _ => 0) heap_in_step⟩

/-- After exec of a process with a heap page the page is there and no record describes it. -/
theorem exec_out_of_step :
    InStep heapKernel.mm heapProcess ∧ ∃ k' me', (dispatch SYS_EXEC fun _ => 0).run heapKernel = .ok 0 k' ∧
      k'.process_list k'.current = some me' ∧ ¬ InStep k'.mm me' := by
  have running : heapKernel.process_list heapKernel.current = some heapProcess := rfl
  refine ⟨heap_in_step,_,execed heapProcess,run_exec running _,?_,fun after => ?_⟩
  · exact Function.update_self heapKernel.current (some (execed heapProcess)) heapKernel.process_list
  have leaf := (heap_leaf (n := 0x20) (by decide)).mpr rfl
  exact exec_describes_nothing (p := heapProcess) ((after 0x20 heap_window).mp leaf)

/-! ### The new program -/

theorem leaf_space {exact : Bool} {base : Nat} {m : Mm} {g : Ledger} (good : Good exact base m g) {pt : PageTable}
    (isRoot : g.own pt.root = .root) {n : Nat} (low : n < 2^27) :
    (userLeaf m pt (n*4096)).isSome ↔ (space m g pt.root n).isSome := by
  rw [← pagesOf_eq good pt isRoot]
  unfold pagesOf
  rw [if_pos low,Option.isSome_map]

section
variable {cfg : Config} {k k1 : Kernel} {me : Process} (reached : Reachable cfg WaitsWell k) (running : runner k = some me)

include reached running

theorem runner_good : ∃ base g, Good false base k.mm g ∧ g.own me.page_table.root = .root ∧ me.page_table.frame_alloc = alloc_frame ∧
    me.heap_start = USER_HEAP_START := by
  obtain ⟨_,_,_,_,g,_,_,user⟩ := reachable_user false (fun _ _ may => ⟨may,by simp⟩) reached
  obtain ⟨p,slot,awake⟩ := reachable_awake reached
  obtain rfl : p = me := Option.some.inj (slot.symm.trans running)
  exact ⟨_,g,user.inv.good,me_root user slot awake,user.inv.link.pool slot (by rw [awake]; simp),(user.inv.heaps _ p slot).1⟩

variable {args : Fin 6 → Nat} (ran : (dispatch SYS_EXEC args).run k = .ok 0 k1)

include ran

/-- When exec leaves the records in step, the break grows as far as there are frames. Over a page that the old program had
    it does not grow, whatever frames there are. -/
theorem brk_after_exec (before : InStep k.mm me) {brk : Nat} (larger : USER_HEAP_START < brk) (small : brk ≤ UART0) :
    ∃ r k2, (sys_brk brk).run k1 = .ok r k2 ∧
      (InStep k1.mm (execed me) → cost (pageUp USER_HEAP_START) (pageUp brk) < freeFrames k.mm → r = brk) ∧
      ∀ n, pageUp USER_HEAP_START ≤ n → n < pageUp brk → Described me n → r = USER_HEAP_START := by
  obtain ⟨base,g,good,isRoot,pool,start⟩ := runner_good reached running
  rw [run_exec running args] at ran
  obtain ⟨_,rfl⟩ := EStateM.Result.ok.inj ran
  have here : Function.update k.process_list k.current (some (execed me)) k.current = some (execed me) := Function.update_self _ _ _
  have heap : USER_HEAP_START = 0x20000 := rfl
  have uart : UART0 = 0x10000000 := rfl
  have device : devicePage = 65536 := rfl
  have limit : USER_HEAP_LIMIT = 0x3e000000 := rfl
  have window : ∀ n, pageUp USER_HEAP_START ≤ n → n < pageUp brk → n < 65536 ∧ Window me n := by
    intro n low high
    unfold pageUp at low high
    exact ⟨by omega,.inl (by rw [start]; omega)⟩
  rcases sys_brk_grow (k := { k with process_list := Function.update k.process_list k.current (some (execed me)) }) good here isRoot
    pool (show me.heap_start < brk by omega) with ⟨_,refused⟩ | ⟨_,res,mm,g',_,absent,_,charged,done⟩
  · rcases refused with less | more
    · exact absurd (show brk < me.heap_start from less) (by omega)
    · omega
  rw [show (execed me).heap_end = USER_HEAP_START from start] at absent charged done
  cases res with
  | true =>
    refine ⟨brk,_,done,fun _ _ => rfl,fun n low high described => ?_⟩
    obtain ⟨inside,window⟩ := window n low high
    have leaf := (leaf_space good isRoot (by omega)).mp ((before n window).mpr described)
    rw [show space k.mm g me.page_table.root n = none from absent rfl n low high] at leaf
    cases leaf
  | false =>
    refine ⟨_,_,done,fun after enough => ?_,fun _ _ _ _ => rfl⟩
    rw [freeFrames_eq good.mirrors.pool] at enough
    have granted := charged_granted good isRoot charged (by unfold pageUp; omega) (fun j low high => ?_) enough
    · cases granted
    · obtain ⟨inside,window⟩ := window j low high
      refine ⟨?_,by omega⟩
      rw [← Option.not_isSome_iff_eq_none]
      exact fun leaf => exec_describes_nothing (p := me) ((after j window).mp ((leaf_space good isRoot (by omega)).mpr leaf))

/-- So with a mapping: the kernel always places it at the start of the region, and there it gets it, as far as there are
    frames, or runs into a page of the old program. -/
theorem mmap_after_exec (before : InStep k.mm me) {len whole prot flags fd offset : Nat} (bound : prot < 2^64)
    (length : Eager.mmapLength len prot flags offset = some whole) (small : USER_MMAP_START+whole ≤ USER_MMAP_LIMIT) :
    ∃ r k2, (sys_mmap 0 len prot flags fd offset).run k1 = .ok r k2 ∧
      (InStep k1.mm (execed me) → cost (USER_MMAP_START/4096) ((USER_MMAP_START+whole)/4096) < freeFrames k.mm →
        r = USER_MMAP_START) ∧
      ∀ n, USER_MMAP_START/4096 ≤ n → n < (USER_MMAP_START+whole)/4096 → Described me n → r = linux_error ENOMEM := by
  obtain ⟨base,g,good,isRoot,pool,_⟩ := runner_good reached running
  rw [run_exec running args] at ran
  obtain ⟨_,rfl⟩ := EStateM.Result.ok.inj ran
  have here : Function.update k.process_list k.current (some (execed me)) k.current = some (execed me) := Function.update_self _ _ _
  have region : USER_MMAP_START = 0x3e000000 := rfl
  have limit : USER_MMAP_LIMIT = 0x3f000000 := rfl
  have device : devicePage = 65536 := rfl
  have window : ∀ n, USER_MMAP_START/4096 ≤ n → n < (USER_MMAP_START+whole)/4096 → n < 2^18 ∧ n ≠ devicePage ∧ Window me n :=
    fun n low high => ⟨by omega,by omega,.inr (by omega)⟩
  have chosen : choose_mmap_addr (execed me).mmap_areas 0 whole = .ok (some USER_MMAP_START) := by
    have first : Areas.Gap (fun _ => .EMPTY) whole USER_MMAP_START :=
      ⟨by decide,le_refl _,small,fun i used => absurd used (by simp [MmapArea.EMPTY])⟩
    obtain ⟨answer,found,lowest⟩ := Gaps.Tidy.lowest_gap Areas.tidy_empty whole
    rw [show choose_mmap_addr (execed me).mmap_areas 0 whole = find_mmap_gap (fun _ => .EMPTY) whole from rfl,found]
    cases answer with
    | none => exact absurd first (lowest _)
    | some place => rw [le_antisymm (lowest.2 _ first) lowest.1.low]
  have slot : (find_free_mmap_slot (execed me).mmap_areas).isSome = true := by
    rw [show (execed me).mmap_areas = fun _ => .EMPTY from rfl]
    decide
  rcases sys_mmap_cases 0 len prot flags fd offset
    { k with process_list := Function.update k.process_list k.current (some (execed me)) } with
    ⟨_,_,_,refused⟩ | ⟨whole',pte_flags,length',aligned,_,accepted,goes⟩
  · rw [length] at refused
    cases refused
  rw [length,Option.some.injEq] at length'
  subst length'
  rw [goes]
  rcases @mmap_anonymous_cases _ _ { k with process_list := Function.update k.process_list k.current (some (execed me)) } _ _ good here isRoot
    pool 0 whole prot flags pte_flags bound aligned accepted _ chosen with
    ⟨_,nowhere⟩ | ⟨place,_,res,mm,g',choice,_,_,absent,_,charged,done⟩
  · obtain ⟨area,found⟩ := Option.isSome_iff_exists.mp slot
    exact absurd ⟨_,area,rfl,found⟩ nowhere
  obtain rfl : USER_MMAP_START = place := Option.some.inj choice
  cases res with
  | true =>
    refine ⟨_,_,done,fun _ _ => rfl,fun n low high described => ?_⟩
    obtain ⟨inside,_,window⟩ := window n low high
    have leaf := (leaf_space good isRoot (by omega)).mp ((before n window).mpr described)
    rw [show space k.mm g me.page_table.root n = none from absent rfl n low high] at leaf
    cases leaf
  | false =>
    refine ⟨_,_,done,fun after enough => ?_,fun _ _ _ _ => rfl⟩
    rw [freeFrames_eq good.mirrors.pool] at enough
    have granted := charged_granted good isRoot charged (by omega) (fun j low high => ?_) enough
    · cases granted
    · obtain ⟨inside,other,window⟩ := window j low high
      refine ⟨?_,other⟩
      rw [← Option.not_isSome_iff_eq_none]
      exact fun leaf => exec_describes_nothing (p := me) ((after j window).mp ((leaf_space good isRoot (by omega)).mpr leaf))

end

end Unit00.Exec
