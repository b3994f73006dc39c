import Unit00.Reports

/-!
Bounded waiting. A context switch hands over to the next ready slot in the order
of the slots, so a process that is ready gets closer with every switch: after at
most thirty of them it runs, whatever the processes do and however long they stay.
-/
namespace Unit00.Fairness
open Unit00.Execution Unit00.Task Unit00.Scheduler Unit00.Space Unit00.Syscall Unit00.Machine Unit00.Lifecycle
open Unit00.Steps Unit00.Boot Unit00.Runs Unit00.Progress Unit00.Stages Unit00.Contexts Unit00.Deaths

/-! ### The order of the slots -/

/-- How many slots after `cur` the scheduler looks at slot `i`; the slot of `cur` is not ahead. -/
def ahead (cur i : Fin MAX_PROCESSES) : Nat := (i.val+MAX_PROCESSES-cur.val)%MAX_PROCESSES

theorem ahead_lt (cur i : Fin MAX_PROCESSES) : ahead cur i < MAX_PROCESSES := Nat.mod_lt _ (by decide)

theorem ahead_pos {cur i : Fin MAX_PROCESSES} (elsewhere : i ≠ cur) : 0 < ahead cur i := by
  have different : i.val ≠ cur.val := fun same => elsewhere (Fin.ext same)
  have small := i.isLt
  have small' := cur.isLt
  simp only [MAX_PROCESSES] at small small'
  simp only [ahead,MAX_PROCESSES]
  omega

/-- A switch brings every ready slot other than the current one closer. -/
theorem nextSlot_closer {s : Slots} {cur i j : Fin MAX_PROCESSES} (picked : nextSlot s cur = some j)
    (ready : readySlot s i = true) (elsewhere : i ≠ cur) : ahead j i+1 ≤ ahead cur i := by
  have different : i.val ≠ cur.val := fun same => elsewhere (Fin.ext same)
  have small := i.isLt
  have small' := cur.isLt
  unfold nextSlot at picked
  rw [List.find?_map] at picked
  obtain ⟨n,found,rfl⟩ := Option.map_eq_some_iff.mp picked
  obtain ⟨_,inside,first⟩ := List.find?_range'_eq_some.mp found
  obtain ⟨low,high⟩ := List.mem_range'_1.mp inside
  -- the slot of `i` was looked at when the search had got that far, so it ended before
  have before : n ≤ ahead cur i := by
    by_contra later
    have place : (⟨(cur.val+ahead cur i)%MAX_PROCESSES,Nat.mod_lt _ (by decide)⟩ : Fin MAX_PROCESSES) = i := by
      apply Fin.ext
      simp only [ahead,MAX_PROCESSES] at small small' ⊢
      omega
    have skipped := first (ahead cur i) (ahead_pos elsewhere) (by omega)
    simp only [Function.comp_apply,place,ready] at skipped
    cases skipped
  simp only [ahead,MAX_PROCESSES] at small small' before high ⊢
  omega

/-! ### What the kernel hands over to -/

/-- Code that comes back in the process `cur`, or leaves for the next ready slot of the table at that time. -/
def Rotates {α : Type} (cur : Fin MAX_PROCESSES) : EStateM.Result Diverge Kernel α → Prop
  | .ok _ k' => k'.current = cur
  | .error (.restore _) k' => ∃ s, nextSlot s cur = some k'.current ∧ ∀ i, i ≠ k'.current → (procs k').slots i = s i
  | .error _ _ => True

/-- The same process goes on. -/
def Stays (k k' : Kernel) : Prop := k'.current = k.current

instance : Std.Refl Stays := ⟨fun _ => rfl⟩

instance : IsTrans Kernel Stays := ⟨fun _ _ _ first second => second.trans first⟩

theorem still_of_quiet {α : Type} {x : K α} (quiet : Quiet x) : Guarded Stays Fatal x := by
  refine ⟨fun k => ?_⟩
  cases run : x.run k with
  | ok a k' => exact (quiet.ok run).current
  | error e k' => exact quiet.error run

theorem still_update_current (change : Process → Process) : Guarded Stays Fatal (update_current change) :=
  guarded_bind (still_of_quiet quiet_current) fun _ => guarded_modify fun _ => rfl

theorem still_reparent_orphans_to_init : Guarded Stays Fatal reparent_orphans_to_init :=
  guarded_bind (still_of_quiet quiet_current) fun _ => guarded_modify fun _ => rfl

theorem still_wake_parent : Guarded Stays Fatal wake_parent :=
  guarded_bind (still_of_quiet quiet_current) fun _ => guarded_modify fun _ => rfl

theorem rotates_fatal {α : Type} {cur : Fin MAX_PROCESSES} {e : Diverge} {k' : Kernel} (fatal : Fatal e) :
    Rotates cur (.error e k' : EStateM.Result Diverge Kernel α) := by
  cases e with
  | restore _ => exact absurd fatal id
  | shutdown => trivial
  | panicked _ => trivial
  | unexpected_trap _ => trivial
  | kernel_trap _ _ => trivial

/-- Code that stays in the process, before code that may leave it. -/
theorem rotates_seq {α β : Type} {x : K β} {f : β → K α} {k : Kernel} {cur : Fin MAX_PROCESSES} (still : Guarded Stays Fatal x)
    (here : k.current = cur) (rest : ∀ b k', k'.current = cur → Rotates cur ((f b).run k')) : Rotates cur ((x >>= f).run k) := by
  cases run : x.run k with
  | ok b k' =>
    rw [run_seq run]
    exact rest b k' ((still.ok run).trans here)
  | error e k' =>
    rw [run_seq_error run]
    exact rotates_fatal (still.error run)

theorem rotates_still {α : Type} {x : K α} {k : Kernel} {cur : Fin MAX_PROCESSES} (still : Guarded Stays Fatal x)
    (here : k.current = cur) : Rotates cur (x.run k) := by
  cases run : x.run k with
  | ok a k' => exact (still.ok run).trans here
  | error e k' => exact rotates_fatal (still.error run)

/-- Code whose turns never leave the process. -/
theorem rotates_turn {α : Type} {k : Kernel} {result : EStateM.Result Diverge Kernel α} {L : Option α → Label → Prop}
    (turn : Turn k result L) (comes_back : ∀ label, ¬ L none label) : Rotates k.current result := by
  cases result with
  | ok _ _ =>
    obtain ⟨_,_,_,stays,_⟩ := turn
    exact stays
  | error e _ =>
    cases e with
    | restore _ =>
      obtain ⟨label,may,_⟩ := turn
      exact absurd may (comes_back label)
    | shutdown => trivial
    | panicked _ => trivial
    | unexpected_trap _ => trivial
    | kernel_trap _ _ => trivial

theorem schedule_rotates {α : Type} {k : Kernel} {cur : Fin MAX_PROCESSES} (here : k.current = cur) :
    Rotates cur ((schedule : K α).run k) := by
  subst here
  cases running : k.process_list k.current with
  | none =>
    have stops : current.run k = .error (.panic "current(): PROCESS_LIST[CURRENT] is None") k := by
      simp only [current,EStateM.run_bind,EStateM.run_get,running]
      rfl
    unfold schedule
    rw [run_seq_error stops]
    trivial
  | some me =>
    rcases schedule_cases running with ⟨run,_⟩ | ⟨j,next,run,_,_,picked⟩
    · rw [run α]
      trivial
    · rw [run α]
      refine ⟨slots (saved k me).process_list,?_,fun i other => ?_⟩
      · rw [← pick_next_eq]
        exact picked
      · show slots (Function.update _ _ _) i = _
        have apart : i ≠ j := other
        rw [slots_update,Function.update_of_ne apart]

theorem sys_exit_rotates {α : Type} {k : Kernel} {cur : Fin MAX_PROCESSES} (here : k.current = cur) (code : Nat) :
    Rotates cur ((sys_exit code : K α).run k) := by
  unfold sys_exit
  refine rotates_seq still_reparent_orphans_to_init here fun _ k1 here => ?_
  refine rotates_seq (still_of_quiet quiet_current) here fun me k2 here => ?_
  refine rotates_seq (still_of_quiet (quiet_onMm _)) here fun _ k3 here => ?_
  refine rotates_seq (still_update_current _) here fun _ k4 here => ?_
  exact rotates_seq still_wake_parent here fun _ k5 here => schedule_rotates here

theorem do_segfault_rotates {α : Type} {k : Kernel} {cur : Fin MAX_PROCESSES} (here : k.current = cur) (scause stval : BitVec 64) :
    Rotates cur ((do_segfault scause stval : K α).run k) := by
  unfold do_segfault
  refine rotates_seq (still_of_quiet (quiet_puts _)) here fun _ k1 here => ?_
  refine rotates_seq (still_of_quiet (quiet_print_hex _)) here fun _ k2 here => ?_
  refine rotates_seq (still_of_quiet (quiet_puts _)) here fun _ k3 here => ?_
  refine rotates_seq (still_of_quiet (quiet_print_hex _)) here fun _ k4 here => ?_
  refine rotates_seq (still_of_quiet (quiet_puts _)) here fun _ k5 here => ?_
  refine rotates_seq still_reparent_orphans_to_init here fun _ k6 here => ?_
  refine rotates_seq (still_update_current _) here fun _ k7 here => ?_
  exact rotates_seq still_wake_parent here fun _ k8 here => schedule_rotates here

theorem sys_wait_rotates {k : Kernel} {me : Process} (running : k.process_list k.current = some me) (exit_code_ptr : Nat) :
    Rotates k.current ((sys_wait exit_code_ptr).run k) := by
  unfold sys_wait
  rw [run_seq (run_current running),run_seq (EStateM.run_get _)]
  dsimp only
  cases found : (List.finRange MAX_PROCESSES).find? (zombie_child k.process_list me.pid) with
  | some idx =>
    obtain ⟨child,code,slot,mine,dead⟩ := zombie_child_some (List.find?_some found)
    exact rotates_turn (reap_turn running slot mine dead exit_code_ptr) fun label may => by cases may.1
  | none =>
    dsimp only
    split
    · exact rotates_seq (still_update_current _) rfl fun _ k1 here => schedule_rotates here
    · exact rotates_still (guarded_pure _) rfl

theorem page_fault_rotates {k : Kernel} {me : Process} (running : k.process_list k.current = some me) (scause stval : BitVec 64) :
    Rotates k.current ((page_fault_handler scause stval).run k) := by
  unfold page_fault_handler
  split
  · have turn := do_segfault_turn (α := PUnit) running scause stval
    have dies := do_segfault_rotates (α := PUnit) (k := k) rfl scause stval
    cases run : (do_segfault scause stval : K PUnit).run k with
    | ok a k' =>
      rw [run] at turn
      obtain ⟨label,⟨impossible,_⟩,_⟩ := turn
      cases impossible
    | error e k' =>
      rw [run] at dies
      rw [run_seq_error run]
      cases e with
      | restore _ => exact dies
      | shutdown => trivial
      | panicked _ => trivial
      | unexpected_trap _ => trivial
      | kernel_trap _ _ => trivial
  · refine rotates_seq (still_of_quiet quiet_current) rfl fun me k1 here => ?_
    refine rotates_seq (still_of_quiet (quiet_onMm _)) here fun found k2 here => ?_
    cases found with
    | some entry => exact rotates_seq (still_of_quiet (quiet_onMm _)) here fun _ k3 here => rotates_still (guarded_pure _) here
    | none => exact do_segfault_rotates here scause stval

theorem dispatch_rotates {k : Kernel} {me : Process} (running : k.process_list k.current = some me) (number : Nat)
    (args : Fin 6 → Nat) : Rotates k.current ((dispatch number args).run k) := by
  by_cases exits : number = SYS_EXIT ∨ number = SYS_EXIT_GROUP
  · rw [dispatch_exit args exits]
    exact sys_exit_rotates rfl (args 0)
  by_cases forks : number = SYS_FORK
  · subst forks
    rw [dispatch_fork]
    refine rotates_turn (sys_fork_turn running) fun label may => ?_
    rcases may with ⟨other,_⟩ | ⟨other,_⟩ <;> cases other
  by_cases waits : number = SYS_WAIT
  · subst waits
    exact sys_wait_rotates running (args 0)
  · exact rotates_still (still_of_quiet (dispatch_quiet args exits forks waits)) rfl

theorem trap_handler_rotates {k : Kernel} {me : Process} (running : k.process_list k.current = some me) (scause stval : BitVec 64) :
    Rotates k.current ((trap_handler scause stval).run k) := by
  unfold trap_handler
  have stack := onMm_ok (TrapFrame.run_read_from_stack (me.kernel_sp-TrapFrame.SIZE) k.mm)
  rw [run_seq (run_current running),run_seq stack,run_seq (run_update_current running _)]
  split
  · exact rotates_still (still_of_quiet quiet_timer_tick) rfl
  split
  · exact dispatch_rotates (k := saved k me) (by simp [saved]; rfl) _ _
  split
  · exact page_fault_rotates (k := saved k me) (by simp [saved]; rfl) scause stval
  · trivial

/-- An event that is over stays in its process or hands over to the next ready slot. -/
theorem step_rotates {k k' : Kernel} {me : Process} (running : k.process_list k.current = some me) {e : Event}
    (run : step e k = .user k') :
    k'.current = k.current ∨
      ∃ s, nextSlot s k.current = some k'.current ∧ ∀ i, i ≠ k'.current → (procs k').slots i = s i := by
  rw [step_eq] at run
  cases traps : trapOf k e with
  | none =>
    rw [traps] at run
    obtain rfl := Outcome.user.inj run
    left
    unfold accessed
    split
    · split
      · rfl
      · rfl
    · rfl
  | some cause =>
    obtain ⟨scause,stval⟩ := cause
    rw [traps] at run
    have rotates := trap_handler_rotates (k := trap_entry e.ctx scause stval k) running scause stval
    unfold trap at run
    dsimp only at run
    cases handled : (trap_handler scause stval).run (trap_entry e.ctx scause stval k) with
    | ok r t =>
      rw [handled] at rotates
      rw [run_seq handled,run_seq (EStateM.run_get _),EStateM.run_pure] at run
      obtain rfl := Outcome.user.inj run
      left
      exact (congrArg System.current (procs_trap_return _ r t)).trans rotates
    | error why t =>
      rw [handled] at rotates
      rw [run_seq_error handled] at run
      cases why with
      | restore sp =>
        obtain rfl := Outcome.user.inj run
        exact .inr rotates
      | shutdown => cases run
      | panicked _ => cases run
      | unexpected_trap _ => cases run
      | kernel_trap _ _ => cases run

/-! ### What a ready process waits for -/

/-- The process `pid` is in slot `i`, ready. -/
def Waits (k : Kernel) (i : Fin MAX_PROCESSES) (pid : Nat) : Prop := ∃ h, (procs k).slots i = some h ∧ h.pid = pid ∧ h.state = .Ready

/-- The process `pid` runs. -/
def Runs (k : Kernel) (pid : Nat) : Prop := ∃ me, runner k = some me ∧ me.pid = pid

/-- A slot of a table that another slot is picked from. -/
theorem switch_keeps {s : System} {t : Slots} {i j : Fin MAX_PROCESSES} {next h : Header} (slot : t i = some h)
    (chosen : t j = some next) :
    (i = j ∧ ∃ me, (switch s t j next).slots j = some me ∧ me.pid = h.pid) ∨ (i ≠ j ∧ (switch s t j next).slots i = some h) := by
  by_cases same : i = j
  · subst same
    obtain rfl : h = next := Option.some.inj (slot.symm.trans chosen)
    exact .inl ⟨rfl,_,Function.update_self ..,rfl⟩
  · exact .inr ⟨same,(Function.update_of_ne same _ _).trans slot⟩

/-- A step leaves a ready process ready, or resumes it. -/
theorem step_ready {s s' : System} {label : Label} (sound : Lifecycle.Sound s) (step : Lifecycle.Step s label s')
    {i : Fin MAX_PROCESSES} {h : Header} (slot : s.slots i = some h) (ready : h.state = .Ready) :
    (s'.current = i ∧ ∃ me, s'.slots i = some me ∧ me.pid = h.pid) ∨
      (s'.current ≠ i ∧ ∃ h', s'.slots i = some h' ∧ h'.pid = h.pid ∧ h'.state = .Ready) := by
  have elsewhere : i ≠ s.current := by
    rintro rfl
    obtain ⟨me,here,runs⟩ := sound.running
    obtain rfl : h = me := Option.some.inj (slot.symm.trans here)
    rw [ready] at runs
    cases runs
  cases step with
  | quiet => exact .inr ⟨elsewhere.symm,h,slot,rfl,ready⟩
  | @fork me j running free =>
    have other : i ≠ j := by
      rintro rfl
      have gone := free h slot
      rw [ready] at gone
      cases gone
    exact .inr ⟨elsewhere.symm,h,(Function.update_of_ne other _ _).trans slot,rfl,ready⟩
  | @reap me child j code running slotC mine dead =>
    have other : i ≠ j := by
      rintro rfl
      obtain rfl : h = child := Option.some.inj (slot.symm.trans slotC)
      rw [ready] at dead
      cases dead
    exact .inr ⟨elsewhere.symm,h,(Function.update_of_ne other _ _).trans slot,rfl,ready⟩
  | @block me child next _ j running clean slotC mine live chosen isReady =>
    have kept : blockSlots s me i = some h := (Function.update_of_ne elsewhere _ _).trans slot
    rcases switch_keeps kept chosen with ⟨rfl,resumed⟩ | ⟨other,stays⟩
    · exact .inl ⟨rfl,resumed⟩
    · exact .inr ⟨Ne.symm other,h,stays,rfl,ready⟩
  | @die me next j code running chosen isReady =>
    have kept : dieSlots s me code i = some (afterDeath me h) := by
      rw [dieSlots_eq sound running,if_neg elsewhere,slot]
      rfl
    have still : (afterDeath me h).state = .Ready := by
      rw [afterDeath_state,ready]
      simp
    rcases switch_keeps kept chosen with ⟨rfl,resumed⟩ | ⟨other,stays⟩
    · rw [afterDeath_pid] at resumed
      exact .inl ⟨rfl,resumed⟩
    · exact .inr ⟨Ne.symm other,_,stays,afterDeath_pid me h,still⟩

/-- The context switches of one step. -/
def switches (k k' : Kernel) : Nat := if k'.current = k.current then 0 else 1

/-- A ready process runs after the step, or it is still ready and as much closer as there were switches. -/
theorem step_closer {k k' : Kernel} (sound : Lifecycle.Sound (procs k)) {e : Event} (run : step e k = .user k')
    {i : Fin MAX_PROCESSES} {pid : Nat} (waits : Waits k i pid) :
    (k'.current = i ∧ Runs k' pid) ∨
      (k'.current ≠ i ∧ Waits k' i pid ∧ switches k k'+ahead k'.current i ≤ ahead k.current i) := by
  obtain ⟨h,slot,rfl,ready⟩ := waits
  obtain ⟨me,here,isRunning⟩ := sound.running
  obtain ⟨p,running,rfl⟩ := slots_inv here
  have ends := step_ends running e
  rw [run] at ends
  obtain ⟨label,goes⟩ := ends
  have elsewhere : i ≠ k.current := by
    rintro rfl
    obtain rfl : h = header p := Option.some.inj (slot.symm.trans here)
    rw [ready] at isRunning
    cases isRunning
  rcases step_ready sound goes slot ready with ⟨now,me,slotM,pid⟩ | ⟨other,h',slot',pid,ready'⟩
  · left
    have now : k'.current = i := now
    subst now
    obtain ⟨q,slotQ,rfl⟩ := slots_inv slotM
    exact ⟨rfl,q,slotQ,pid⟩
  · right
    refine ⟨other,⟨h',slot',pid,ready'⟩,?_⟩
    unfold switches
    rcases step_rotates running run with same | ⟨s,picked,rest⟩
    · rw [if_pos same,same]
      omega
    · have isReady : readySlot s i = true := by
        unfold readySlot
        rw [← rest i (Ne.symm other),slot']
        simp [ready']
      have closer := nextSlot_closer picked isReady elsewhere
      split <;> omega

/-! ### Stretches of runs -/

/-- The states from `k` on, the latest first, and how many context switches there were between them. -/
inductive Stretch (allowed : Kernel → Event → Prop) (k : Kernel) : List Kernel → Nat → Kernel → Prop
  | start : Stretch allowed k [k] 0 k
  | step {seen : List Kernel} {n : Nat} {a b : Kernel} {e : Event} (before : Stretch allowed k seen n a) (may : allowed a e)
      (run : step e a = .user b) : Stretch allowed k (b :: seen) (n+switches a b) b

theorem Stretch.reachable {cfg : Config} {allowed : Kernel → Event → Prop} {k k' : Kernel} {seen : List Kernel} {n : Nat}
    (reached : Reachable cfg allowed k) (stretch : Stretch allowed k seen n k') : Reachable cfg allowed k' := by
  induction stretch with
  | start => exact reached
  | step _ may run ih => exact ih.step may run

theorem stretch_closer {cfg : Config} {allowed : Kernel → Event → Prop} {k k' : Kernel} {seen : List Kernel} {n : Nat}
    (reached : Reachable cfg allowed k) {i : Fin MAX_PROCESSES} {pid : Nat} (waits : Waits k i pid)
    (elsewhere : k.current ≠ i) (stretch : Stretch allowed k seen n k') :
    (∃ a ∈ seen, Runs a pid) ∨ (k'.current ≠ i ∧ Waits k' i pid ∧ n+ahead k'.current i ≤ ahead k.current i) := by
  induction stretch with
  | start => exact .inr ⟨elsewhere,waits,by omega⟩
  | @step seen n a b e before may run ih =>
    rcases ih with ⟨x,member,runs⟩ | ⟨_,still,close⟩
    · exact .inl ⟨x,List.mem_cons_of_mem _ member,runs⟩
    · rcases step_closer (reachable_sound (before.reachable reached)) run still with ⟨_,runs⟩ | ⟨other,still',closer⟩
      · exact .inl ⟨b,List.mem_cons_self,runs⟩
      · exact .inr ⟨other,still',by omega⟩

/-- The running process has no zombie child, and a child that is alive. -/
def Sleeps (k : Kernel) : Prop :=
  ∃ me, runner k = some me ∧ (∀ i c, k.process_list i = some c → c.parent_pid = me.pid → ¬ Zombie (header c)) ∧
    ∃ i c, k.process_list i = some c ∧ c.parent_pid = me.pid ∧ Live (header c)

/-- The running process gives up the hart: it waits for a child that is alive, it exits, or it is killed. -/
def Leaves (k : Kernel) (e : Event) : Prop :=
  (Calls e SYS_WAIT ∧ Sleeps k) ∨ Calls e SYS_EXIT ∨ Calls e SYS_EXIT_GROUP ∨ Kills k e

/-- What a process that leaves looks like from outside. -/
theorem leaves_visible {k : Kernel} {e : Event} (leaves : Leaves k e) :
    (visible k e = some (.call SYS_WAIT (argument e)) ∧ Sleeps k) ∨ ∃ code, Reports.Fatal (visible k e) code := by
  rcases leaves with ⟨calls,sleeps⟩ | calls | calls | killed
  · exact .inl ⟨Reports.calls_visible calls,sleeps⟩
  · exact .inr ⟨_,.inl ⟨_,_,.inl rfl,Reports.calls_visible calls,rfl⟩⟩
  · exact .inr ⟨_,.inl ⟨_,_,.inr rfl,Reports.calls_visible calls,rfl⟩⟩
  · exact .inr ⟨1,.inr ⟨killed,rfl⟩⟩

theorem switch_away {s : System} {t : Slots} {j : Fin MAX_PROCESSES} {next h : Header} (chosen : t j = some next)
    (ready : next.state = .Ready) (here : t s.current = some h) (stopped : h.state ≠ .Ready) : (switch s t j next).current ≠ s.current := by
  intro same
  have same : j = s.current := same
  subst same
  obtain rfl : next = h := Option.some.inj (chosen.symm.trans here)
  exact stopped ready

/-- The kernel is cooperative: a step that ends in user mode hands the hart to another process exactly when the running
    one gives it up. -/
theorem switch_iff {cfg : Config} {k k' : Kernel} {e : Event} (reached : Reachable cfg WaitsWell k) (waits : WaitsWell k e)
    (run : step e k = .user k') : k'.current ≠ k.current ↔ Leaves k e := by
  obtain ⟨_,_,_,_,g,_,_,user⟩ := reachable_user false (fun _ _ waits => ⟨waits,by simp⟩) reached
  obtain ⟨me,running,awake⟩ := reachable_awake reached
  have sound := reachable_sound reached
  obtain ⟨label,goes,tells⟩ := Reports.step_tells user running awake waits run
  have current' : (procs k').current = k'.current := rfl
  have current : (procs k).current = k.current := rfl
  rw [← current',← current]
  generalize procs k' = after at goes
  cases goes with
  | quiet =>
    refine ⟨fun moved => absurd rfl moved,fun leaves => ?_⟩
    rcases leaves_visible leaves with ⟨asks,p,slotP,_,i,c,slotC,mine,live⟩ | ⟨code,fatal⟩
    · refine absurd ?_ (live_not_gone live)
      exact ((tells.1 _ asks).2 _ (slots_some slotP) i _ (slots_some slotC) mine)
    · exact absurd fatal (tells.2 code)
  | fork _ _ =>
    refine ⟨fun moved => absurd rfl moved,fun leaves => ?_⟩
    obtain ⟨⟨args,asks⟩,_⟩ := tells
    rcases leaves_visible leaves with ⟨other,_⟩ | ⟨code,⟨number,_,exits,other,_⟩ | ⟨other,_⟩⟩
    · rw [asks] at other
      cases other
    · rw [asks] at other
      cases other
      exact absurd exits (by decide)
    · rw [asks] at other
      cases other
  | @reap h child j code here slot mine dead =>
    refine ⟨fun moved => absurd rfl moved,fun leaves => ?_⟩
    obtain ⟨⟨args,asks⟩,_⟩ := tells
    rcases leaves_visible leaves with ⟨_,p,slotP,clean,_⟩ | ⟨code,⟨number,_,exits,other,_⟩ | ⟨other,_⟩⟩
    · obtain ⟨c,slotC,rfl⟩ := slots_inv slot
      obtain rfl : header p = h := Option.some.inj ((slots_some slotP).symm.trans here)
      exact absurd ⟨code,dead⟩ (clean j c slotC mine)
    · rw [asks] at other
      cases other
      exact absurd exits (by decide)
    · rw [asks] at other
      cases other
  | @block h child next i j here clean slot mine live chosen ready =>
    obtain ⟨⟨args,asks⟩,_⟩ := tells
    obtain ⟨p,slotP,rfl⟩ := slots_inv here
    obtain ⟨c,slotC,rfl⟩ := slots_inv slot
    refine iff_of_true ?_ (.inl ⟨(visible_call asks).1,p,slotP,fun i c slotC => clean i _ (slots_some slotC),i,c,slotC,mine,live⟩)
    exact switch_away chosen ready (Function.update_self ..) (by simp)
  | @die h next j code here chosen ready =>
    obtain ⟨_,fatal⟩ := tells
    refine iff_of_true ?_ ?_
    · refine switch_away chosen ready (h := { h with state := .Zombie code }) ?_ (by simp)
      rw [dieSlots_eq sound here,if_pos rfl]
    · rcases fatal with ⟨number,args,rfl | rfl,asks,_⟩ | ⟨killed,_⟩
      · exact .inr (.inl (visible_call asks).1)
      · exact .inr (.inr (.inl (visible_call asks).1))
      · exact .inr (.inr (.inr killed))

/-- Init hands over to its child when it waits for it. -/
theorem switch_iff_of_wait : ∃ k e k', Reachable (sample true) WaitsWell k ∧ WaitsWell k e ∧ step e k = .user k' ∧
    k'.current ≠ k.current ∧ (k'.current ≠ k.current ↔ Leaves k e) := by
  obtain ⟨_,_,k,k',_,_,_,_,handover⟩ := sample_handover
  have reached := (plain_waits handover.at1.run).reachable
  have waits : WaitsWell k (callEvent 260 []) := waits_null (by decide)
  refine ⟨k,_,k',reached,waits,handover.waited,?_,switch_iff reached waits handover.waited⟩
  rw [show k'.current = 1 from congrArg System.current handover.at2.procs,
    show k.current = 0 from congrArg System.current handover.at1.procs]
  decide

end Unit00.Fairness
