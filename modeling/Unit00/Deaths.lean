import Unit00.Contexts

/-!
Lost wakeups. A wakeup of a waiting process is lost in exactly one way: a
process dies with a zombie among its children while init is blocked and is not
its parent. A run of five processes loses one.
-/
namespace Unit00.Deaths
open Unit00.Memory Unit00.Execution Unit00.Frame Unit00.Paging Unit00.Paging.PTEntry Unit00.Trees Unit00.Ownership
open Unit00.Mirror Unit00.Space Unit00.Pages Unit00.Ranges Unit00.Clearing Unit00.Forking Unit00.Access Unit00.Mmu
open Unit00.Task Unit00.Scheduler Unit00.Syscall Unit00.Machine Unit00.Lifecycle Unit00.Steps Unit00.Invariant
open Unit00.Services Unit00.Traps Unit00.View Unit00.Boot Unit00.Runs Unit00.Isolation Unit00.Progress Unit00.Stages Unit00.Contexts

/-! ### Lost wakeups -/

/-- No blocked process has a zombie child. -/
def NoLostWakeup (k : Kernel) : Prop :=
  ∀ i j p c, k.process_list i = some p → p.state = .Blocked → k.process_list j = some c → c.parent_pid = p.pid →
    ¬ ∃ code, c.state = .Zombie code

/-- The running process has a zombie child and another parent than init, and init is blocked. -/
def HidesZombie (k : Kernel) : Prop :=
  ∃ me i c j init, runner k = some me ∧ k.process_list i = some c ∧ c.parent_pid = me.pid ∧ (∃ code, c.state = .Zombie code) ∧
    me.parent_pid ≠ 1 ∧ k.process_list j = some init ∧ init.pid = 1 ∧ init.state = .Blocked

/-- The running process exits, or takes a page fault that the kernel does not resolve. -/
def Dies (k : Kernel) (e : Event) : Prop :=
  ∃ me scause stval, runner k = some me ∧ trapOf k e = some (scause,stval) ∧
    if scause = 8 then
      ((trapped (trap_entry e.ctx scause stval k) me).regs 17).toNat = SYS_EXIT ∨
      ((trapped (trap_entry e.ctx scause stval k) me).regs 17).toNat = SYS_EXIT_GROUP
    else Segfaults (trap_entry e.ctx scause stval k) me scause stval

theorem noLost_iff (k : Kernel) : NoLost (procs k) ↔ NoLostWakeup k := by
  constructor
  · intro none i j p c slotP asleep slotC mine dead
    exact none i j _ _ (slots_some slotP) asleep (slots_some slotC) mine dead
  · intro none i j h c slotH asleep slotC mine dead
    obtain ⟨p,slotP,rfl⟩ := slots_inv slotH
    obtain ⟨q,slotQ,rfl⟩ := slots_inv slotC
    exact none i j p q slotP asleep slotQ mine dead

theorem hidden_iff (k : Kernel) : Hidden (procs k) ↔ HidesZombie k := by
  constructor
  · rintro ⟨me,i,c,j,init,running,slotC,mine,dead,father,slotI,pid,asleep⟩
    obtain ⟨p,slotP,rfl⟩ := slots_inv running
    obtain ⟨q,slotQ,rfl⟩ := slots_inv slotC
    obtain ⟨r,slotR,rfl⟩ := slots_inv slotI
    exact ⟨p,i,q,j,r,slotP,slotQ,mine,dead,father,slotR,pid,asleep⟩
  · rintro ⟨me,i,c,j,init,running,slotC,mine,dead,father,slotI,pid,asleep⟩
    exact ⟨header me,i,header c,j,header init,slots_some running,slots_some slotC,mine,dead,father,slots_some slotI,pid,asleep⟩

/-- A step is a step of the life cycle, a death exactly when the running process dies. -/
theorem step_label {k k' : Kernel} {e : Event} {me : Process} (running : k.process_list k.current = some me)
    (run : step e k = .user k') :
    ∃ label, Step (procs k) label (procs k') ∧ (Dies k e ↔ ∃ code, label = .die code) := by
  rw [step_eq] at run
  cases traps : trapOf k e with
  | none =>
    rw [traps] at run
    obtain ⟨mm,rest⟩ := accessed_rest k e
    have same : procs k' = procs k := by
      rw [← Outcome.user.inj run,rest]
      rfl
    refine ⟨.quiet,by rw [same]; exact .quiet _,?_,?_⟩
    · rintro ⟨_,_,_,_,other,_⟩
      rw [traps] at other
      cases other
    · rintro ⟨code,other⟩
      cases other
  | some cause =>
    obtain ⟨scause,stval⟩ := cause
    rw [traps] at run
    have ends := trap_ends running e.ctx scause stval
    rw [show trap e.ctx scause stval k = .user k' from run] at ends
    obtain ⟨r,label,turn,step,_⟩ := ends
    refine ⟨label,step,?_⟩
    have dies : Dies k e ↔ if scause = 8 then
        ((trapped (trap_entry e.ctx scause stval k) me).regs 17).toNat = SYS_EXIT ∨
        ((trapped (trap_entry e.ctx scause stval k) me).regs 17).toNat = SYS_EXIT_GROUP
      else Segfaults (trap_entry e.ctx scause stval k) me scause stval := by
      constructor
      · rintro ⟨me',scause',stval',running',traps',how⟩
        rw [runner,running,Option.some.injEq] at running'
        rw [traps,Option.some.injEq,Prod.mk.injEq] at traps'
        obtain ⟨rfl,rfl⟩ := traps'
        rw [← running'] at how
        exact how
      · exact fun how => ⟨me,scause,stval,running,traps,how⟩
    rw [dies]
    unfold TrapTurn at turn
    by_cases call : scause = 8
    · rw [if_pos call] at turn ⊢
      generalize ((trapped (trap_entry e.ctx scause stval k) me).regs 17).toNat = number at turn ⊢
      by_cases exits : number = SYS_EXIT ∨ number = SYS_EXIT_GROUP
      · rw [if_pos exits] at turn
        exact ⟨fun _ => ⟨_,turn.2⟩,fun _ => exits⟩
      rw [if_neg exits] at turn
      refine ⟨fun other => absurd other exits,?_⟩
      rintro ⟨code,rfl⟩
      split at turn
      · rcases turn with ⟨_,other⟩ | ⟨_,other⟩ <;> cases other
      split at turn
      · rcases turn with ⟨_,_,_,other⟩ | ⟨_,other⟩ | ⟨_,other,_⟩ <;> cases other
      · cases turn.2
    · rw [if_neg call] at turn ⊢
      rcases turn with ⟨_,quiet,fine⟩ | ⟨_,dead,fatal⟩
      · refine ⟨fun fatal => absurd fatal fine,?_⟩
        rintro ⟨code,rfl⟩
        cases quiet
      · exact ⟨fun _ => ⟨_,dead⟩,fun _ => fatal⟩

theorem boot_noLost {cfg : Config} {k : Kernel} (run : boot cfg = .user k) : NoLostWakeup k := by
  rw [← noLost_iff,boot_procs run]
  intro i j h c slot asleep _ _ _
  dsimp only at slot
  by_cases first : i = 0
  · rw [first,Function.update_self,Option.some.injEq] at slot
    rw [← slot] at asleep
    cases asleep
  · rw [Function.update_of_ne first] at slot
    cases slot

/-- As long as waits are given good status pointers, no wakeup is lost in a run exactly when no process that dies in it hides a zombie from a blocked init. -/
theorem no_lost_wakeup_iff {cfg : Config} {history : List (Kernel × Event)} {k : Kernel} (run : Run cfg WaitsWell history k) :
    (NoLostWakeup k ∧ ∀ k' e, (k',e) ∈ history → NoLostWakeup k') ↔
      ∀ k' e, (k',e) ∈ history → Dies k' e → ¬ HidesZombie k' := by
  induction run with
  | boot run =>
    refine ⟨fun _ k' e member => absurd member (by simp),fun _ => ⟨boot_noLost run,fun k' e member => absurd member (by simp)⟩⟩
  | @step history k k' e before may run ih =>
    obtain ⟨me,running,_⟩ := reachable_awake before.reachable
    have sound := reachable_sound before.reachable
    obtain ⟨label,step,dies⟩ := step_label running run
    constructor
    · rintro ⟨now,then_⟩ k1 e1 member dying hides
      rcases List.mem_cons.mp member with same | earlier
      · obtain ⟨rfl,rfl⟩ := Prod.mk.inj same
        obtain ⟨code,rfl⟩ := dies.mp dying
        exact hidden_lost sound ((hidden_iff _).mpr hides) step ((noLost_iff _).mpr now)
      · refine ih.mp ⟨then_ k e (by simp),fun k2 e2 inside => then_ k2 e2 (by simp [inside])⟩ k1 e1 earlier dying hides
    · intro never
      obtain ⟨now,then_⟩ := ih.mpr fun k1 e1 earlier => never k1 e1 (List.mem_cons_of_mem _ earlier)
      refine ⟨?_,fun k1 e1 member => ?_⟩
      · rw [← noLost_iff]
        refine step_noLost sound ((noLost_iff _).mpr now) (fun code same hidden => ?_) step
        exact never k e (by simp) (dies.mpr ⟨code,same⟩) ((hidden_iff _).mp hidden)
      · rcases List.mem_cons.mp member with same | earlier
        · obtain ⟨rfl,rfl⟩ := Prod.mk.inj same
          exact now
        · exact then_ k1 e1 earlier

/-! ### A run that loses one -/

/-- Two grandchildren of a child of init die while their parent waits; it reaps one of them and dies itself while init
    waits for the child. Init is not woken, and the other one is its zombie now. -/
theorem hidden_run : ∃ history k, Run (sample true) Plain history k ∧
    history.map Prod.snd = [callEvent 93 [],callEvent 260 [],callEvent 93 [],callEvent 93 [],callEvent 260 [],callEvent 220 [],
      callEvent 220 [],callEvent 260 [],callEvent 220 [],callEvent 260 [],callEvent 220 []] ∧
    procs k = ⟨tableOf [⟨1,0,.Blocked⟩,⟨2,1,.Running⟩,⟨3,2,.Zombie 0⟩,⟨4,3,.Gone⟩,⟨5,1,.Zombie 0⟩],1,6⟩ := by
  obtain ⟨o,k0,k1,k2,g0,g1,_,_,handover⟩ := sample_handover
  obtain ⟨k3,g3,_,_,at3,_⟩ := stage_fork (n := 3*1035) handover.at2 rfl rfl 2 (by decide +kernel)
    ⟨tableOf [⟨1,0,.Blocked⟩,⟨2,1,.Running⟩,⟨3,2,.Ready⟩],1,4⟩ (system_eq (by decide +kernel) rfl rfl)
  obtain ⟨k4,at4,_⟩ := stage_block at3 rfl rfl (by decide +kernel) (i := 2) (j := 2) rfl rfl (.inl rfl) (by decide +kernel) rfl
    ⟨tableOf [⟨1,0,.Blocked⟩,⟨2,1,.Blocked⟩,⟨3,2,.Running⟩],2,4⟩ (system_eq (by decide +kernel) rfl rfl)
  obtain ⟨k5,g5,_,_,at5,_⟩ := stage_fork (n := 2*1035) at4 rfl rfl 3 (by decide +kernel)
    ⟨tableOf [⟨1,0,.Blocked⟩,⟨2,1,.Blocked⟩,⟨3,2,.Running⟩,⟨4,3,.Ready⟩],2,5⟩ (system_eq (by decide +kernel) rfl rfl)
  obtain ⟨k6,g6,_,_,at6,_⟩ := stage_fork (n := 1035) at5 rfl rfl 4 (by decide +kernel)
    ⟨tableOf [⟨1,0,.Blocked⟩,⟨2,1,.Blocked⟩,⟨3,2,.Running⟩,⟨4,3,.Ready⟩,⟨5,3,.Ready⟩],2,6⟩ (system_eq (by decide +kernel) rfl rfl)
  obtain ⟨k7,at7,_⟩ := stage_block at6 rfl rfl (by decide +kernel) (i := 3) (j := 3) rfl rfl (.inl rfl) (by decide +kernel) rfl
    ⟨tableOf [⟨1,0,.Blocked⟩,⟨2,1,.Blocked⟩,⟨3,2,.Blocked⟩,⟨4,3,.Running⟩,⟨5,3,.Ready⟩],3,6⟩ (system_eq (by decide +kernel) rfl rfl)
  -- The first grandchild wakes its parent, but the second is next in the table and dies before the parent runs.
  obtain ⟨k8,g8,at8,_⟩ := stage_exit at7 rfl rfl (j := 4) ⟨5,3,.Ready⟩ (by decide +kernel) (by decide +kernel)
    ⟨tableOf [⟨1,0,.Blocked⟩,⟨2,1,.Blocked⟩,⟨3,2,.Ready⟩,⟨4,3,.Zombie 0⟩,⟨5,3,.Running⟩],4,6⟩ (system_eq (by decide +kernel) rfl rfl)
  obtain ⟨k9,g9,at9,_⟩ := stage_exit at8 rfl rfl (j := 2) ⟨3,2,.Ready⟩ (by decide +kernel) (by decide +kernel)
    ⟨tableOf [⟨1,0,.Blocked⟩,⟨2,1,.Blocked⟩,⟨3,2,.Running⟩,⟨4,3,.Zombie 0⟩,⟨5,3,.Zombie 0⟩],2,6⟩
    (system_eq (by decide +kernel) rfl rfl)
  obtain ⟨k10,g10,at10,_⟩ := stage_reap at9 rfl rfl 3 (by decide +kernel) rfl
    ⟨tableOf [⟨1,0,.Blocked⟩,⟨2,1,.Blocked⟩,⟨3,2,.Running⟩,⟨4,3,.Gone⟩,⟨5,3,.Zombie 0⟩],2,6⟩ (system_eq (by decide +kernel) rfl rfl)
  obtain ⟨k11,g11,at11,_⟩ := stage_exit at10 rfl rfl (j := 1) ⟨2,1,.Ready⟩ (by decide +kernel) (by decide +kernel)
    ⟨tableOf [⟨1,0,.Blocked⟩,⟨2,1,.Running⟩,⟨3,2,.Zombie 0⟩,⟨4,3,.Gone⟩,⟨5,1,.Zombie 0⟩],1,6⟩ (system_eq (by decide +kernel) rfl rfl)
  exact ⟨_,k11,at11.run,rfl,at11.procs⟩

theorem hidden_lost_at {k : Kernel}
    (at_end : procs k = ⟨tableOf [⟨1,0,.Blocked⟩,⟨2,1,.Running⟩,⟨3,2,.Zombie 0⟩,⟨4,3,.Gone⟩,⟨5,1,.Zombie 0⟩],1,6⟩) :
    ¬ NoLostWakeup k := by
  intro none
  rw [← noLost_iff,at_end] at none
  exact none 0 4 ⟨1,0,.Blocked⟩ ⟨5,1,.Zombie 0⟩ rfl rfl rfl rfl ⟨0,rfl⟩

/-- In that run somebody dies and hides a zombie from init. -/
theorem no_lost_wakeup_iff_of_hidden : ∃ history k, Run (sample true) WaitsWell history k ∧ history.length = 11 ∧
    ¬ NoLostWakeup k ∧ ∃ k' e, (k',e) ∈ history ∧ Dies k' e ∧ HidesZombie k' := by
  obtain ⟨history,k,run,events,at_end⟩ := hidden_run
  have long : history.length = 11 := by
    rw [← List.length_map (f := Prod.snd),events]
    rfl
  have waits := plain_waits run
  have iff := no_lost_wakeup_iff waits
  refine ⟨history,k,waits,long,hidden_lost_at at_end,?_⟩
  by_contra never
  exact hidden_lost_at at_end (iff.mpr fun k' e inside dies hides => never ⟨k',e,inside,dies,hides⟩).1

theorem lost_wakeup : ∃ k, Reachable (sample true) WaitsWell k ∧ ¬ NoLostWakeup k := by
  obtain ⟨_,k,run,_,at_end⟩ := hidden_run
  exact ⟨k,(plain_waits run).reachable,hidden_lost_at at_end⟩

end Unit00.Deaths
