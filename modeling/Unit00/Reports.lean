import Unit00.Deaths

/-!
Deaths and who hears of them. Every death is reported at most once, with its
exit code, to the process that forked the dead one or to init in its place. A
wait that finds no zombie sleeps and is executed again.
-/
namespace Unit00.Reports
open Unit00.Memory Unit00.Execution Unit00.Frame Unit00.Paging Unit00.Paging.PTEntry Unit00.Trees Unit00.Ownership
open Unit00.Mirror Unit00.Space Unit00.Pages Unit00.Ranges Unit00.Clearing Unit00.Forking Unit00.Access Unit00.Mmu
open Unit00.Task Unit00.Scheduler Unit00.Syscall Unit00.Machine Unit00.Lifecycle Unit00.Steps Unit00.Invariant
open Unit00.Services Unit00.Traps Unit00.View Unit00.Boot Unit00.Runs Unit00.Isolation Unit00.Progress Unit00.Contexts Unit00.Deaths
open Unit00.Stages

/-! ### What a step tells -/

/-- All children of the running process are gone. -/
def Childless (s : System) : Prop :=
  ∀ me, s.slots s.current = some me → ∀ i h, s.slots i = some h → h.parent_pid = me.pid → h.state = .Gone

/-- An exit with its code, or a fatal fault. -/
def Fatal (act : Option Eager.Action) (code : Nat) : Prop :=
  (∃ number args, (number = SYS_EXIT ∨ number = SYS_EXIT_GROUP) ∧ act = some (.call number args) ∧ code = args 0) ∨
    (act = some .killed ∧ code = 1)

/-- What a step of the life cycle has to do with the call that made it and with what the call returned. -/
def Tells (s : System) (act : Option Eager.Action) (r : Option Nat) : Label → Prop
  | .quiet => (∀ args, act = some (.call SYS_WAIT args) → r = some (linux_error ECHILD) ∧ Childless s) ∧ ∀ code, ¬ Fatal act code
  | .fork child => (∃ args, act = some (.call SYS_FORK args)) ∧ r = some child
  | .reap child _ => (∃ args, act = some (.call SYS_WAIT args)) ∧ r = some child
  | .block => (∃ args, act = some (.call SYS_WAIT args)) ∧ r = none
  | .die code => r = none ∧ Fatal act code

section
variable {exact : Bool} {o : Origin} {k k' : Kernel} {g g' : Ledger} {me : Process} {act : Option Eager.Action} {r : Option Nat}

theorem not_fatal_none {code : Nat} : ¬ Fatal none code := by
  rintro (⟨_,_,_,other,_⟩ | ⟨other,_⟩) <;> cases other

theorem not_fatal_call {number code : Nat} {args : Fin 6 → Nat} (returns : ¬ (number = SYS_EXIT ∨ number = SYS_EXIT_GROUP)) :
    ¬ Fatal (some (.call number args)) code := by
  rintro (⟨_,_,exits,same,_⟩ | ⟨other,_⟩)
  · injection same with same
    injection same with number_eq
    rw [number_eq] at returns
    exact returns exits
  · cases other

theorem Handled.label (handled : Handled exact o k g me act r k' g') (running : k.process_list k.current = some me) :
    ∃ label, Step (procs k) label (procs k') ∧ Tells (procs k) act r label := by
  cases handled with
  | quiet serves =>
    refine ⟨.quiet,by rw [procs_kept serves.kept]; exact .quiet _,fun _ other => ?_,fun _ => not_fatal_none⟩
    cases other
  | @call number _ _ _ _ _ returns _ not_wait serves =>
    refine ⟨.quiet,by rw [procs_kept serves.kept]; exact .quiet _,fun _ other => ?_,fun _ => not_fatal_call returns⟩
    injection other with other
    injection other with number_eq
    exact absurd number_eq not_wait
  | full =>
    refine ⟨.quiet,.quiet _,fun _ other => ?_,fun _ => not_fatal_call (by decide)⟩
    cases other
  | childless none =>
    refine ⟨.quiet,.quiet _,fun _ _ => ⟨rfl,fun h slot => ?_⟩,fun _ => not_fatal_call (by decide)⟩
    have same : some (header me) = some h := (slots_some running).symm.trans slot
    rw [Option.some.injEq] at same
    rw [← same]
    exact none
  | @fork args idx c s mm _ free forked =>
    refine ⟨.fork k.next_pid,?_,⟨args,rfl⟩,rfl⟩
    have empty : ∀ h, (procs k).slots idx = some h → h.state = .Gone := by
      intro h slot
      obtain ⟨p,slotP,rfl⟩ := slots_inv slot
      exact find_empty_slot_some free slotP
    have step := Step.fork (s := procs k) (slots_some running) empty
    unfold Steps.procs at step ⊢
    dsimp only at step ⊢
    rw [slots_update]
    exact step
  | @reap args idx child code k1 g1 _ mm slot mine dead serves good freeing _ =>
    refine ⟨.reap child.pid code,?_,⟨args,rfl⟩,rfl⟩
    have step := Step.reap (s := procs k) (slots_some running) (slots_some slot) mine dead
    have kept := procs_kept serves.kept
    unfold Steps.procs at step kept ⊢
    simp only [System.mk.injEq] at kept
    obtain ⟨table,current,next_pid⟩ := kept
    dsimp only at step ⊢
    rw [slots_update,table,current,next_pid]
    exact step
  | @block args i j child next clean slot mine live chosen ready _ =>
    have table : slots (blocked k me).process_list = blockSlots (Steps.procs k) (header me) := slots_update _ _ _
    have found := slots_some chosen
    rw [table] at found
    refine ⟨.block,?_,⟨args,rfl⟩,rfl⟩
    rw [procs_resumed,table]
    exact .block (slots_some running) clean slot mine live found ready
  | @exit number args mm _ j next exits acts chosen ready _ =>
    exact ⟨.die (args 0),step_ended running chosen ready,rfl,.inl ⟨number,args,exits,rfl,rfl⟩⟩
  | @killed output j next leaky chosen ready _ => exact ⟨.die 1,step_ended running chosen ready,rfl,.inr ⟨rfl,rfl⟩⟩

end

/-! ### The chronicle of a run -/

/-- The running process of an event. -/
def ByPid (k : Kernel) (pid : Nat) : Prop := ∃ me, runner k = some me ∧ me.pid = pid

/-- A wait that returned the pid of a child. -/
def ReapOf (k : Kernel) (e : Event) (child : Nat) : Prop :=
  Calls e SYS_WAIT ∧ returned k e = some child ∧ child ≠ linux_error ECHILD

/-- The death of a process: by an exit with its code, or by a fatal fault with code 1. -/
def DeathOf (k : Kernel) (e : Event) (pid code : Nat) : Prop :=
  ByPid k pid ∧ (((Calls e SYS_EXIT ∨ Calls e SYS_EXIT_GROUP) ∧ code = argument e 0) ∨ (Kills k e ∧ code = 1))

/-- A fork that made a child. -/
def ForkOf (k : Kernel) (e : Event) (parent child : Nat) : Prop :=
  ByPid k parent ∧ Calls e SYS_FORK ∧ returned k e = some child ∧ child = k.next_pid

/-- What the history of a run says about the processes in the table. -/
structure Chronicle (history : List (Kernel × Event)) (s : System) : Prop where
  born : ∀ {i h}, s.slots i = some h → h.pid ≠ 1 → ∃ k0 e0 parent, (k0,e0) ∈ history ∧ ForkOf k0 e0 parent h.pid ∧
    (h.parent_pid = parent ∨ (h.parent_pid = 1 ∧ ∃ k1 e1 code, (k1,e1) ∈ history ∧ DeathOf k1 e1 parent code))
  dead : ∀ {i h code}, s.slots i = some h → h.state = .Zombie code → ∃ k0 e0, (k0,e0) ∈ history ∧ DeathOf k0 e0 h.pid code
  died : ∀ {k0 e0 pid code}, (k0,e0) ∈ history → DeathOf k0 e0 pid code →
    pid < s.next_pid ∧ ∀ {i h}, s.slots i = some h → h.pid = pid → h.state = .Zombie code ∨ h.state = .Gone
  reported : ∀ {k0 e0 pid}, (k0,e0) ∈ history → ReapOf k0 e0 pid →
    pid < s.next_pid ∧ ∀ {i h}, s.slots i = some h → h.pid = pid → h.state = .Gone

theorem calls_visible {k : Kernel} {e : Event} {number : Nat} (calls : Calls e number) :
    visible k e = some (.call number (argument e)) := by
  have traps : trapOf k e = some (8,0) := by rw [trapOf,calls.1]
  unfold visible
  rw [traps]
  dsimp only
  rw [if_neg (by decide),if_pos rfl,callOf,calls.2]
  rfl

/-- The step of an event, with what it tells. -/
theorem step_tells {o : Origin} {k k' : Kernel} {g : Ledger} {me : Process} {e : Event} (user : InUser false o k g)
    (running : k.process_list k.current = some me) (awake : me.state = .Running) (waits : WaitsWell k e)
    (run : step e k = .user k') :
    ∃ label, Step (procs k) label (procs k') ∧ Tells (procs k) (visible k e) (returned k e) label := by
  rcases step_split user running awake run waits (by simp) with ⟨silent,rfl⟩ | ⟨scause,stval,traps,run,seen,permitted⟩
  · obtain ⟨mm,rest⟩ := accessed_rest k e
    refine ⟨.quiet,?_,fun args seen => ?_,fun code fatal => ?_⟩
    · rw [rest]
      exact .quiet _
    · have calls := (visible_call seen).1
      rw [trapOf,calls.1] at silent
      cases silent
    · rw [visible,silent] at fatal
      dsimp only at fatal
      split at fatal
      · rcases fatal with ⟨_,_,_,other,_⟩ | ⟨other,_⟩ <;> cases other
      · exact not_fatal_none fatal
  · obtain ⟨_,_,running1,_,_⟩ := entered_inv user running awake e.ctx scause stval
    obtain ⟨r,kh,g',next,handled,slot_next,rfl,same⟩ := trap_handled user running awake permitted run
    obtain ⟨label,step,tells⟩ := Handled.label handled running1
    have done : returned k e = r := by
      rw [returned,traps]
      exact same
    rw [procs_entered running] at step tells
    rw [← seen,← done] at tells
    exact ⟨label,by rw [procs_leaving]; exact step,tells⟩

section
variable {k k' : Kernel} {e : Event} {me : Process} {history : List (Kernel × Event)} {label : Label}

theorem tells_death (running : k.process_list k.current = some me) {code : Nat}
    (tells : Tells (procs k) (visible k e) (returned k e) (.die code)) : DeathOf k e me.pid code := by
  refine ⟨⟨me,running,rfl⟩,?_⟩
  rcases tells.2 with ⟨number,args,exits,seen,rfl⟩ | killed
  · obtain ⟨calls,rfl⟩ := visible_call seen
    refine .inl ⟨?_,rfl⟩
    rcases exits with same | same
    · rw [same] at calls
      exact .inl calls
    · rw [same] at calls
      exact .inr calls
  · exact .inr killed

theorem tells_fork (running : k.process_list k.current = some me) {child : Nat} (new : child = k.next_pid)
    (tells : Tells (procs k) (visible k e) (returned k e) (.fork child)) : ForkOf k e me.pid child := by
  obtain ⟨⟨args,seen⟩,done⟩ := tells
  exact ⟨⟨me,running,rfl⟩,(visible_call seen).1,done,new⟩

/-- A wait that reports a child has reaped it. -/
theorem tells_report {child : Nat} (reports : ReapOf k e child)
    (tells : Tells (procs k) (visible k e) (returned k e) label) : ∃ code, label = .reap child code := by
  obtain ⟨calls,done,fine⟩ := reports
  cases label with
  | quiet =>
    rw [(tells.1 _ (calls_visible calls)).1,Option.some.injEq] at done
    exact absurd done.symm fine
  | fork c =>
    obtain ⟨⟨args,seen⟩,_⟩ := tells
    have other := (visible_call seen).1.2
    rw [calls.2] at other
    cases other
  | reap c code =>
    obtain ⟨_,same⟩ := tells
    rw [done,Option.some.injEq] at same
    exact ⟨code,by rw [same]⟩
  | block =>
    obtain ⟨_,same⟩ := tells
    rw [done] at same
    cases same
  | die code =>
    obtain ⟨same,_⟩ := tells
    rw [done] at same
    cases same

/-- A death is a step of dying. -/
theorem death_label {pid code : Nat} (death : DeathOf k e pid code) (tells : Tells (procs k) (visible k e) (returned k e) label) :
    label = .die code := by
  have fatal : Fatal (visible k e) code := by
    rcases death.2 with ⟨calls | calls,same⟩ | killed
    · exact .inl ⟨_,_,.inl rfl,calls_visible calls,same⟩
    · exact .inl ⟨_,_,.inr rfl,calls_visible calls,same⟩
    · exact .inr killed
  have fatal_call : ∀ {number args}, ¬ (number = SYS_EXIT ∨ number = SYS_EXIT_GROUP) →
      visible k e ≠ some (.call number args) := by
    intro number args returns same
    rw [same] at fatal
    exact not_fatal_call returns fatal
  cases label with
  | quiet => exact absurd fatal (tells.2 code)
  | fork c => exact absurd tells.1.choose_spec (fatal_call (by decide))
  | reap c _ => exact absurd tells.1.choose_spec (fatal_call (by decide))
  | block => exact absurd tells.1.choose_spec (fatal_call (by decide))
  | die code' =>
    obtain ⟨_,fatal'⟩ := tells
    rcases fatal with ⟨number,args,_,seen,rfl⟩ | ⟨seen,rfl⟩ <;> rcases fatal' with ⟨number',args',_,seen',rfl⟩ | ⟨seen',rfl⟩
    · rw [seen] at seen'
      injection seen' with seen'
      injection seen' with _ args_eq
      rw [args_eq]
    · rw [seen] at seen'
      cases seen'
    · rw [seen] at seen'
      cases seen'
    · rfl

theorem chronicle_step (running : k.process_list k.current = some me) (sound : Lifecycle.Sound (procs k))
    (chronicle : Chronicle history (procs k)) (step : Step (procs k) label (procs k'))
    (tells : Tells (procs k) (visible k e) (returned k e) label) :
    Chronicle ((k,e) :: history) (procs k') := by
  have here : (procs k).slots (procs k).current = some (header me) := slots_some running
  refine ⟨?_,?_,?_,?_⟩
  · intro i h' slot' other
    rcases step_back sound step slot' with ⟨h,slot,pid,parent,_,_⟩ | ⟨me',running',rfl,new,parent,_⟩
    · obtain ⟨k0,e0,forker,member,fork,who⟩ := chronicle.born slot (by rw [← pid]; exact other)
      rw [← pid] at fork
      refine ⟨k0,e0,forker,List.mem_cons_of_mem _ member,fork,?_⟩
      rcases parent with same | ⟨one,me',code,running',mine,rfl⟩
      · rw [same]
        exact who.imp id fun ⟨is,k1,e1,code,inside,death⟩ => ⟨is,k1,e1,code,List.mem_cons_of_mem _ inside,death⟩
      · rw [here,Option.some.injEq] at running'
        rw [← running'] at mine
        have death := tells_death running tells
        rcases who with same | ⟨_,k1,e1,code1,inside,earlier⟩
        · rw [mine] at same
          exact .inr ⟨one,k,e,code,List.mem_cons_self,by rw [← same]; exact death⟩
        · exact .inr ⟨one,k1,e1,code1,List.mem_cons_of_mem _ inside,earlier⟩
    · rw [here,Option.some.injEq] at running'
      rw [← running'] at parent
      exact ⟨k,e,me.pid,List.mem_cons_self,tells_fork running new tells,.inl parent⟩
  · intro i h' code slot' dead'
    rcases step_back sound step slot' with ⟨h,slot,pid,_,dead,_⟩ | ⟨_,_,_,_,_,ready⟩
    · rcases dead code dead' with before | ⟨same,rfl⟩
      · obtain ⟨k0,e0,member,death⟩ := chronicle.dead slot before
        exact ⟨k0,e0,List.mem_cons_of_mem _ member,by rw [pid]; exact death⟩
      · rw [same,here,Option.some.injEq] at slot
        refine ⟨k,e,List.mem_cons_self,?_⟩
        rw [pid,← slot]
        exact tells_death running tells
    · rw [ready] at dead'
      cases dead'
  · intro k0 e0 pid code member death
    have later := step_next_pid step
    rcases List.mem_cons.mp member with same | earlier
    · obtain ⟨rfl,rfl⟩ := Prod.mk.inj same
      obtain ⟨⟨me',running',rfl⟩,_⟩ := id death
      rw [runner,running,Option.some.injEq] at running'
      subst running'
      rw [death_label death tells] at step
      obtain ⟨h,slot,pid,dead⟩ := step_die sound step here
      have sound' := step_sound sound step
      refine ⟨Nat.lt_of_lt_of_le (sound.forest.fresh here) later,?_⟩
      intro i h' slot' same
      have place := sound'.forest.distinct slot' slot (same.trans pid.symm)
      rw [place,slot,Option.some.injEq] at slot'
      rw [← slot']
      exact .inl dead
    · obtain ⟨old,dead⟩ := chronicle.died earlier death
      refine ⟨by omega,?_⟩
      intro i h' slot' is
      rcases step_back sound step slot' with ⟨h,slot,same,_,_,stays⟩ | ⟨_,_,_,new,_,_⟩
      · rcases dead slot (by rw [← same]; exact is) with zombie | gone
        · obtain ⟨h1,slot1,fate⟩ := step_zombie sound step slot zombie
          rw [slot',Option.some.injEq] at slot1
          rw [slot1]
          exact fate
        · exact .inr (stays gone)
      · omega
  · intro k0 e0 pid member reports
    have later := step_next_pid step
    rcases List.mem_cons.mp member with same | earlier
    · obtain ⟨rfl,rfl⟩ := Prod.mk.inj same
      obtain ⟨code,rfl⟩ := tells_report reports tells
      have sound' := step_sound sound step
      generalize procs k' = after at step sound' later ⊢
      cases step with
      | @reap me' child j _ running' slot mine dead =>
        refine ⟨sound.forest.fresh slot,?_⟩
        intro i h slot' pid
        have reaped : (Function.update (procs k0).slots j (some { child with state := .Gone })) j =
            some { child with state := .Gone } := Function.update_self _ _ _
        have place := sound'.forest.distinct slot' reaped pid
        rw [place] at slot'
        have equal : some h = some { child with state := .Gone } := slot'.symm.trans reaped
        rw [Option.some.injEq] at equal
        rw [equal]
    · obtain ⟨old,gone⟩ := chronicle.reported earlier reports
      refine ⟨by omega,?_⟩
      intro i h' slot' is
      rcases step_back sound step slot' with ⟨h,slot,same,_,_,stays⟩ | ⟨_,_,_,new,_,_⟩
      · exact stays (gone slot (by rw [← same]; exact is))
      · omega

end

theorem run_chronicle {cfg : Config} {history : List (Kernel × Event)} {k : Kernel} (run : Run cfg WaitsWell history k) :
    Chronicle history (procs k) := by
  induction run with
  | boot run =>
    rw [boot_procs run]
    have only : ∀ {i : Fin MAX_PROCESSES} {h : Header},
        Function.update (fun _ => none) 0 (some ⟨1,0,.Running⟩) i = some h → h = ⟨1,0,.Running⟩ := by
      intro i h slot
      by_cases first : i = 0
      · rw [first,Function.update_self,Option.some.injEq] at slot
        exact slot.symm
      · rw [Function.update_of_ne first] at slot
        cases slot
    refine ⟨fun slot other => ?_,fun slot dead => ?_,fun member _ => ?_,fun member _ => ?_⟩
    · rw [only slot] at other
      exact absurd rfl other
    · rw [only slot] at dead
      cases dead
    · cases member
    · cases member
  | step before may run ih =>
    obtain ⟨me,running,awake⟩ := reachable_awake before.reachable
    obtain ⟨_,_,_,_,g,_,_,user⟩ := reachable_user false (fun _ _ waits => ⟨waits,by simp⟩) before.reachable
    obtain ⟨label,step,tells⟩ := step_tells user running awake may run
    exact chronicle_step running (reachable_sound before.reachable) ih step tells

/-! ### Pids are small -/

section
variable {exact : Bool} {o : Origin} {k k' : Kernel} {g g' : Ledger} {me : Process} {act : Option Eager.Action} {r : Option Nat}

/-- The bump pointer never goes back, and the stack of a child takes eight frames from it. -/
theorem Handled.frames (handled : Handled exact o k g me act r k' g') :
    g.next ≤ g'.next ∧ (k'.next_pid = k.next_pid ∨ (k'.next_pid = k.next_pid+1 ∧ g.next+8*4096 ≤ g'.next)) := by
  cases handled with
  | quiet serves => exact ⟨serves.aside.next,.inl serves.kept.next_pid⟩
  | call _ _ _ serves => exact ⟨serves.aside.next,.inl serves.kept.next_pid⟩
  | full => exact ⟨le_refl _,.inl rfl⟩
  | childless => exact ⟨le_refl _,.inl rfl⟩
  | @fork args idx c s mm _ free forked =>
    have eight : KERNEL_STACK_PAGES = 8 := rfl
    have size : PAGE_SIZE = 4096 := rfl
    have last : g'.own (s+7*PAGE_SIZE) = .stack s := (forked.stack _ s).mpr (.inr ⟨rfl,7,by omega,rfl⟩)
    have pool := forked.good.mirrors.pool
    have inside := (pool.owned (s+7*PAGE_SIZE)).mp (by rw [last]; simp)
    have aligned := pool.next_aligned
    have above := forked.fresh_stack
    rw [size] at inside
    exact ⟨forked.next,.inr ⟨rfl,by omega⟩⟩
  | @reap args idx child code k1 g1 _ mm slot mine dead serves good freeing _ =>
    have first := serves.aside.next
    have second : g'.next = g1.next := freeing.next
    exact ⟨by omega,.inl serves.kept.next_pid⟩
  | block => exact ⟨le_refl _,.inl rfl⟩
  | exit _ acts => exact ⟨acts.aside.next,.inl rfl⟩
  | killed => exact ⟨le_refl _,.inl rfl⟩

end

/-- Each process that was ever made took a kernel stack above the bump pointer. -/
theorem run_pids {cfg : Config} {k : Kernel} (reached : Reachable cfg WaitsWell k) :
    2 ≤ k.next_pid ∧ bootBase cfg+(k.next_pid-2)*(8*4096) ≤ k.mm.next_frame := by
  induction reached with
  | boot run =>
    obtain ⟨r,s,m,g,rfl,launch⟩ := boot_launch false run
    have pool := launch.user.inv.good.mirrors.pool
    have order := pool.order
    rw [← pool.next] at order
    refine ⟨le_refl _,?_⟩
    show bootBase cfg+(2-2)*(8*4096) ≤ _
    rw [Nat.sub_self,Nat.zero_mul,Nat.add_zero]
    exact order
  | @step k k' e before may run ih =>
    obtain ⟨me,running,awake⟩ := reachable_awake before
    obtain ⟨_,_,_,_,g,_,_,user⟩ := reachable_user false (fun _ _ waits => ⟨waits,by simp⟩) before
    rcases step_split user running awake run may (by simp) with ⟨silent,rfl⟩ | ⟨scause,stval,traps,run,_,permitted⟩
    · by_cases store : ∃ va value, e.action = .store va value
      · obtain ⟨va,value,action⟩ := store
        obtain ⟨d,_,_,after⟩ := stored user running awake va value action silent
        rw [after]
        exact ih
      · rw [accessed_idle fun va value action => store ⟨va,value,action⟩]
        exact ih
    · obtain ⟨inv1,home1,running1,_,_⟩ := entered_inv user running awake e.ctx scause stval
      obtain ⟨r,kh,g',next,handled,slot_next,rfl,_⟩ := trap_handled user running awake permitted run
      obtain ⟨invh,homeh⟩ := handled.keeps inv1 home1 running1 awake
      obtain ⟨next',slot_next',awake_next,_⟩ := handled.next running1 awake
      rw [slot_next,Option.some.injEq] at slot_next'
      rw [← slot_next'] at awake_next
      obtain ⟨after,_⟩ := leaving_user invh homeh slot_next awake_next r
      have frames := Handled.frames handled
      have pids : (leaving r (next.kernel_sp-TrapFrame.SIZE) kh).next_pid = kh.next_pid :=
        congrArg System.next_pid (procs_leaving r _ kh)
      have entry : (entered e.ctx scause stval k me).next_pid = k.next_pid := rfl
      have start := user.inv.good.mirrors.pool.next
      have stop := after.inv.good.mirrors.pool.next
      rw [entry] at frames
      obtain ⟨two,bound⟩ := ih
      rw [pids,stop]
      omega

theorem pid_small {cfg : Config} {k : Kernel} (reached : Reachable cfg WaitsWell k) : k.next_pid ≤ 4098 := by
  obtain ⟨two,bound⟩ := run_pids reached
  obtain ⟨_,_,_,_,g,_,launch,user⟩ := reachable_user false (fun _ _ waits => ⟨waits,by simp⟩) reached
  have pool := user.inv.good.mirrors.pool
  have high := pool.high
  have low := launch.low
  have next := pool.next
  have start : RAM_BASE = 0x80000000 := rfl
  have ram : RAM_END = 0x88000000 := rfl
  omega

/-! ### What a wait comes to -/

/-- What a wait that returned a child did: it reaped a zombie of the caller that nobody reported before. The exit code
    that it stored is the one of the only death of the child, and the caller forked the child or is init in place of
    the dead forker. -/
structure Delivered (before : List (Kernel × Event)) (k : Kernel) (e : Event) (me : Process) (child code : Nat) : Prop where
  zombie : ∃ i c, k.process_list i = some c ∧ c.pid = child ∧ c.parent_pid = me.pid ∧ c.state = .Zombie code
  once : ∀ k0 e0, (k0,e0) ∈ before → ¬ ReapOf k0 e0 child
  died : ∃ k0 e0, (k0,e0) ∈ before ∧ DeathOf k0 e0 child code
  only : ∀ k0 e0 code', (k0,e0) ∈ before → DeathOf k0 e0 child code' → code' = code
  stored : ∀ after, step e k = .user after →
    pagesOf after.mm me.page_table = Eager.deliver (argument e 0) code (pagesOf k.mm me.page_table)
  caller : ∃ k0 e0 forker, (k0,e0) ∈ before ∧ ForkOf k0 e0 forker child ∧
    (me.pid = forker ∨ (me.pid = 1 ∧ ∃ k1 e1 code', (k1,e1) ∈ before ∧ DeathOf k1 e1 forker code'))

/-- What a wait that blocked did: the caller sleeps, it has a child that is alive and no zombie, and when it runs
    again it is where it was at the wait, with the same registers. -/
structure Sleeps (later : List (Kernel × Event)) (last k : Kernel) (e : Event) (me : Process) : Prop where
  asleep : ∀ after, step e k = .user after →
    ∃ q, after.process_list k.current = some q ∧ q.pid = me.pid ∧ q.state = .Blocked
  clean : ∀ i c, k.process_list i = some c → c.parent_pid = me.pid → ¬ ∃ code, c.state = .Zombie code
  child : ∃ i c, k.process_list i = some c ∧ c.parent_pid = me.pid ∧ Processes.IsLive c
  restarts : (∀ k1 e1, (k1,e1) ∈ later → ¬ ByPid k1 me.pid) → ByPid last me.pid → Restored last e.ctx

section
variable {o : Origin} {cfg : Config} {k k' : Kernel} {g : Ledger} {me : Process} {e : Event} {before later : List (Kernel × Event)}

/-- A wait finds nobody, reaps or blocks. -/
theorem wait_fate {label : Label} (calls : Calls e SYS_WAIT) (tells : Tells (procs k) (visible k e) (returned k e) label) :
    (label = .quiet ∧ returned k e = some (linux_error ECHILD) ∧ Childless (procs k)) ∨
    (∃ child code, label = .reap child code ∧ returned k e = some child) ∨ (label = .block ∧ returned k e = none) := by
  have other : ∀ {number args}, number ≠ SYS_WAIT → visible k e ≠ some (.call number args) := by
    intro number args apart seen
    exact apart ((visible_call seen).1.2.symm.trans calls.2)
  cases label with
  | quiet => exact .inl ⟨rfl,tells.1 _ (calls_visible calls)⟩
  | fork c => exact absurd tells.1.choose_spec (other (by decide))
  | reap c code => exact .inr (.inl ⟨c,code,rfl,tells.2⟩)
  | block => exact .inr (.inr ⟨rfl,tells.2⟩)
  | die code =>
    rcases tells.2 with ⟨number,args,exits,seen,_⟩ | ⟨seen,_⟩
    · exact absurd seen (other (by rcases exits with rfl | rfl <;> decide))
    · rw [calls_visible calls] at seen
      cases seen

/-- Two zombies that one step reaps are the same. -/
theorem reap_unique {s s' : System} {child code child' code' : Nat} (first : Step s (.reap child code) s')
    (second : Step s (.reap child' code') s') : child = child' ∧ code = code' := by
  generalize labelA : Label.reap child code = a at first
  generalize labelB : Label.reap child' code' = b at second
  cases first with
  | @reap me c i codeA running slot mine dead =>
    generalize target : ({ s with slots := Function.update s.slots i (some { c with state := .Gone }) } : System) = s' at second
    cases second with
    | @reap me' c' j codeB running' slot' mine' dead' =>
      injection labelA with pidA codeA
      injection labelB with pidB codeB
      have tables := congrArg System.slots target
      dsimp only at tables
      have same : i = j := by
        by_contra apart
        have here := congrFun tables i
        rw [Function.update_self,Function.update_of_ne apart,slot,Option.some.injEq] at here
        rw [← here] at dead
        cases dead
      subst same
      rw [slot,Option.some.injEq] at slot'
      rw [slot',dead'] at dead
      injection dead with codes
      rw [pidA,pidB,codeA,codeB,slot',codes]
      exact ⟨rfl,rfl⟩
    | _ => cases labelB
  | _ => cases labelA

theorem returned_call (k : Kernel) (call : e.action = .ecall) : returned k e = answer e.ctx 8 0 k := by
  rw [returned,trapOf,call]
  rfl

/-- The process that a system call returns to. -/
theorem call_returns (user : InUser false o k g) (running : k.process_list k.current = some me) (awake : me.state = .Running)
    (call : e.action = .ecall) (waits : WaitsWell k e) (run : step e k = .user k') {r : Nat} (done : returned k e = some r) :
    ∃ q, k'.process_list k.current = some q ∧ q.state = .Running ∧ q.page_table = me.page_table := by
  obtain ⟨_,_,running1,_,_⟩ := entered_inv user running awake e.ctx 8 0
  obtain ⟨_,kh,g',next,handled,slot_next,rfl,same,_⟩ := call_handled user running awake call waits (by simp) run
  obtain ⟨next',slot_next',awake_next,kept⟩ := handled.next running1 awake
  rw [slot_next,Option.some.injEq] at slot_next'
  rw [← slot_next'] at awake_next kept
  rw [returned_call k call,same] at done
  obtain ⟨unmoved,kin⟩ := kept (by rw [done]; rfl)
  have place : kh.current = k.current := unmoved
  refine ⟨next,?_,awake_next,kin.page_table⟩
  rw [(leaving_rest _ _ _).1,← place]
  exact slot_next

/-- A wait of the reference system by a process with a zombie reaps. -/
theorem eager_reap {w w' : Eager.World} {args : Fin 6 → Nat} (next : Eager.Step w (.call SYS_WAIT args) w')
    {h c : Header} {i : Fin MAX_PROCESSES} {code : Nat} (running : w.procs.slots w.procs.current = some h)
    (slot : w.procs.slots i = some c) (mine : c.parent_pid = h.pid) (dead : c.state = .Zombie code) :
    ∃ child code', Step w.procs (.reap child code') w'.procs ∧
      (w'.image w.procs.current).pages = Eager.deliver (args 0) code' (w.image w.procs.current).pages := by
  generalize asked : Eager.Action.call SYS_WAIT args = act at next
  cases next with
  | store => cases asked
  | killed => cases asked
  | call _ _ _ not_wait =>
    injection asked with number _
    exact absurd number.symm not_wait
  | fork =>
    injection asked with number _
    cases number
  | full =>
    injection asked with number _
    cases number
  | exit exits =>
    injection asked with number _
    rw [← number] at exits
    exact absurd exits (by decide)
  | @reap args child code' after reaps =>
    injection asked with _ args_eq
    refine ⟨child,code',reaps,?_⟩
    dsimp only [Eager.World.put]
    rw [Function.update_self,args_eq]
  | block blocks =>
    generalize label : Label.block = l at blocks
    cases blocks with
    | @block me' _ _ _ _ running' clean _ _ _ _ _ =>
      rw [running,Option.some.injEq] at running'
      rw [← running'] at clean
      exact absurd ⟨code,dead⟩ (clean i c slot mine)
    | _ => cases label
  | @childless _ me' running' none =>
    rw [running,Option.some.injEq] at running'
    rw [← running'] at none
    rw [none i c slot mine] at dead
    cases dead

/-- A wait that reaps stores the exit code in the pages of the caller, where it was asked to. -/
theorem wait_pages (user : InUser false o k g) (running : k.process_list k.current = some me) (awake : me.state = .Running)
    (calls : Calls e SYS_WAIT) (waits : WaitsWell k e) (run : step e k = .user k') {child code : Nat}
    (done : returned k e = some child) (reaps : Step (procs k) (.reap child code) (procs k')) :
    pagesOf k'.mm me.page_table = Eager.deliver (argument e 0) code (pagesOf k.mm me.page_table) := by
  have forks : ForksWell k e := fun other => by
    have both := calls.2.symm.trans other.2
    cases both
  obtain ⟨q,slot,awake',table⟩ := call_returns user running awake calls.1 waits run done
  obtain ⟨g',user',follows⟩ := step_user user running awake waits (by simp) run
  obtain ⟨w,next,agrees⟩ := follows (worldOf k) (worldOf_agrees user.inv) forks
  rw [calls_visible calls] at next
  obtain ⟨h,c,i,here,slotC,mineC,dead⟩ : ∃ h c i, (procs k).slots (procs k).current = some h ∧ (procs k).slots i = some c ∧
      c.parent_pid = h.pid ∧ c.state = .Zombie code := by
    generalize procs k' = after at reaps
    cases reaps with
    | @reap h c i _ running' slotC mineC dead => exact ⟨h,c,i,running',slotC,mineC,dead⟩
  obtain ⟨child',code',reaps',pages⟩ := eager_reap (w := worldOf k) next here slotC mineC dead
  rw [agrees.procs] at reaps'
  obtain ⟨_,codes⟩ := reap_unique reaps reaps'
  have after : w.image k.current = imageAt k'.mm q := by
    rw [agrees.images _ _ slot (.inr (.inl awake')),imageAt_eq user'.inv slot (by rw [awake']; simp)]
  have mine : (worldOf k).image k.current = imageAt k.mm me := by
    unfold worldOf
    simp only [running]
  rw [show (worldOf k).procs.current = k.current from rfl,after,mine,← codes] at pages
  have written : pagesOf k'.mm q.page_table = Eager.deliver (argument e 0) code (pagesOf k.mm me.page_table) := pages
  rw [table] at written
  exact written

/-! ### Along a run -/

theorem run_suffix {allowed : Kernel → Event → Prop} {history : List (Kernel × Event)}
    (run : Run cfg allowed (later ++ history) k) : ∃ k0, Run cfg allowed history k0 := by
  induction later generalizing k with
  | nil => exact ⟨k,run⟩
  | cons head rest ih =>
    cases run with
    | step before _ _ => exact ih before

theorem run_next_pid {allowed : Kernel → Event → Prop} {history : List (Kernel × Event)} (run : Run cfg allowed history k)
    {k0 : Kernel} {e0 : Event} (member : (k0,e0) ∈ history) : k0.next_pid ≤ k.next_pid := by
  induction run with
  | boot => cases member
  | @step history k k' e before may run ih =>
    obtain ⟨me,running,_⟩ := reachable_awake before.reachable
    obtain ⟨label,step,_⟩ := step_label running run
    have grows : k.next_pid ≤ k'.next_pid := step_next_pid step
    rcases List.mem_cons.mp member with same | earlier
    · obtain ⟨rfl,rfl⟩ := Prod.mk.inj same
      exact grows
    · exact (ih earlier).trans grows

/-- What a process is owed does not change while others run. -/
theorem owed_along {allowed : Kernel → Event → Prop} {last : Kernel} {pid : Nat} (old : pid < k.next_pid)
    (run : Run cfg allowed (later ++ (k,e) :: before) last) (others : ∀ k1 e1, (k1,e1) ∈ later → ¬ ByPid k1 pid) :
    owed (later ++ (k,e) :: before) pid = owed ((k,e) :: before) pid := by
  induction later generalizing last with
  | nil => rfl
  | cons head rest ih =>
    obtain ⟨k1,e1⟩ := head
    cases run with
    | step earlier _ _ =>
      obtain ⟨me,running,_⟩ := reachable_awake earlier.reachable
      have apart : me.pid ≠ pid := fun same => others k1 e1 List.mem_cons_self ⟨me,running,same⟩
      have grows : k.next_pid ≤ k1.next_pid := run_next_pid earlier (show (k,e) ∈ rest ++ (k,e) :: before by simp)
      rw [List.cons_append,owed_other running (.inl apart) (by omega)]
      exact ih earlier fun k2 e2 member => others k2 e2 (List.mem_cons_of_mem _ member)

/-- A process that was not running goes on with what it is owed. -/
theorem goes_on {history : List (Kernel × Event)} (run : Run cfg WaitsWell ((k,e) :: history) k') {pid : Nat}
    (new : ByPid k' pid) (other : ¬ ByPid k pid) {ctx : Context} (due : owed ((k,e) :: history) pid = some ctx) :
    Restored k' ctx := by
  cases run with
  | step earlier may run =>
    obtain ⟨me,running,awake⟩ := reachable_awake earlier.reachable
    obtain ⟨_,_,_,_,g,_,_,user⟩ := reachable_user false (fun _ _ waits => ⟨waits,by simp⟩) earlier.reachable
    have goes := (step_parked user running awake (reachable_sound earlier.reachable) (run_parked earlier) may (by simp) run).2
    have noisy : trapOf k e ≠ none := by
      intro silent
      rw [step_eq,silent] at run
      obtain ⟨mm,rest⟩ := accessed_rest k e
      rw [← Outcome.user.inj run,rest] at new
      exact other new
    obtain ⟨p,ctx',running',due',restored,_⟩ := goes noisy
    obtain ⟨p',again,same⟩ := new
    rw [running',Option.some.injEq] at again
    rw [again,same,due,Option.some.injEq] at due'
    rw [due']
    exact restored

/-- A wait that was blocked is executed again: its process finds the context of the wait. -/
theorem wait_restarts {last : Kernel} (run : Run cfg WaitsWell (later ++ (k,e) :: before) last) (running : runner k = some me)
    (calls : Calls e SYS_WAIT) (left : returned k e = none) (apart : later = [] → ¬ ByPid last me.pid)
    (others : ∀ k1 e1, (k1,e1) ∈ later → ¬ ByPid k1 me.pid) (again : ByPid last me.pid) : Restored last e.ctx := by
  have noisy : trapOf k e ≠ none := by
    rw [trapOf,calls.1]
    simp
  obtain ⟨k1,first⟩ := run_suffix run
  have old : me.pid < k.next_pid := by
    cases first with
    | step earlier _ _ => exact (reachable_sound earlier.reachable).forest.fresh (slots_some running)
  have due := owed_along old run others
  rw [owed_mine running noisy,resumes_wait left calls] at due
  cases later with
  | nil => exact absurd again (apart rfl)
  | cons head rest =>
    obtain ⟨k2,e2⟩ := head
    exact goes_on run again (others k2 e2 List.mem_cons_self) due

/-- A step after which the caller of a wait is blocked. -/
theorem block_asleep {s s' : System} {h : Header} (step : Step s .block s')
    (running : s.slots s.current = some h) :
    (∃ q, s'.slots s.current = some q ∧ q.pid = h.pid ∧ q.state = .Blocked) ∧
    (∀ i c, s.slots i = some c → c.parent_pid = h.pid → ¬ Zombie c) ∧
    (∃ i c, s.slots i = some c ∧ c.parent_pid = h.pid ∧ Live c) := by
  cases step with
  | @block me child next i j running' clean slot mine live chosen ready =>
    rw [running,Option.some.injEq] at running'
    subst running'
    have asleep : blockSlots s h s.current = some { h with state := .Blocked } := Function.update_self _ _ _
    exact ⟨⟨_,switch_stays chosen ready asleep (by simp),rfl,rfl⟩,clean,i,child,slot,mine,live⟩

end

section
variable {o : Origin} {k k' : Kernel} {g : Ledger} {me : Process} {e : Event} {before : List (Kernel × Event)} {child code : Nat}

theorem reap_child {after : System} (step : Step (procs k) (.reap child code) after) (running : k.process_list k.current = some me) :
    ∃ i c, k.process_list i = some c ∧ c.pid = child ∧ c.parent_pid = me.pid ∧ c.state = .Zombie code := by
  have here : (procs k).slots (procs k).current = some (header me) := slots_some running
  cases step with
  | @reap h c i _ running' slot mine dead =>
    rw [here,Option.some.injEq] at running'
    rw [← running'] at mine
    obtain ⟨p,slotP,rfl⟩ := slots_inv slot
    exact ⟨i,p,slotP,rfl,mine,dead⟩

/-- What a wait that reaps delivers. -/
theorem delivered (user : InUser false o k g) (running : k.process_list k.current = some me) (awake : me.state = .Running)
    (calls : Calls e SYS_WAIT) (waits : WaitsWell k e) (run : step e k = .user k') (sound : Lifecycle.Sound (procs k))
    (chronicle : Chronicle before (procs k)) (done : returned k e = some child)
    (reaps : Step (procs k) (.reap child code) (procs k')) : Delivered before k e me child code := by
  obtain ⟨i,c,slot,rfl,mine,dead⟩ := reap_child reaps running
  have slotC : (procs k).slots i = some (header c) := slots_some slot
  refine ⟨⟨i,c,slot,rfl,mine,dead⟩,?_,chronicle.dead slotC dead,?_,?_,?_⟩
  · intro k0 e0 member reports
    have gone := (chronicle.reported member reports).2 slotC rfl
    rw [show (header c).state = c.state from rfl,dead] at gone
    cases gone
  · intro k0 e0 code' member death
    rcases (chronicle.died member death).2 slotC rfl with same | gone
    · rw [show (header c).state = c.state from rfl,dead] at same
      injection same with same
      exact same.symm
    · rw [show (header c).state = c.state from rfl,dead] at gone
      cases gone
  · intro after again
    rw [run] at again
    rw [← Outcome.user.inj again]
    exact wait_pages user running awake calls waits run done reaps
  · have alive : me.pid < c.pid := sound.forest.not_own_child (slots_some running) slotC mine
      (by rw [show (header c).state = c.state from rfl,dead]; simp)
    have first : 1 ≤ me.pid := sound.forest.positive (slots_some running)
    obtain ⟨k0,e0,forker,member,fork,who⟩ := chronicle.born slotC (show c.pid ≠ 1 by omega)
    have parent : (header c).parent_pid = me.pid := mine
    rw [parent] at who
    exact ⟨k0,e0,forker,member,fork,who⟩

end

end Unit00.Reports
