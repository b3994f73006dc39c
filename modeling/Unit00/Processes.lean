import Unit00.Stages

/-!
What holds of the process table in every run of the kernel: its shape at each
entry into user mode, and that the scheduler shuts the machine down only when
no process is left.
-/
namespace Unit00.Processes
open Unit00.Frame Unit00.Task Unit00.Scheduler Unit00.Syscall Unit00.Machine Unit00.Lifecycle Unit00.Steps Unit00.Boot
open Unit00.Runs Unit00.Progress Unit00.Stages

/-- A process that is neither a zombie nor gone. -/
def IsLive (p : Process) : Prop := p.state = .Ready ∨ p.state = .Running ∨ p.state = .Blocked

/-- The process table at an entry into user mode. -/
structure TableInvariant (k : Kernel) : Prop where
  running : ∃ me, k.process_list k.current = some me ∧ me.state = .Running
  only : ∀ i p, k.process_list i = some p → p.state = .Running → i = k.current
  distinct : ∀ i j p q, k.process_list i = some p → k.process_list j = some q → p.pid = q.pid → i = j
  pids : ∀ i p, k.process_list i = some p → 1 ≤ p.pid ∧ p.pid < k.next_pid
  parents : ∀ i p, k.process_list i = some p → p.state ≠ .Gone → p.pid ≠ 1 →
    p.parent_pid < p.pid ∧ (p.parent_pid = 1 ∨ ∃ j q, k.process_list j = some q ∧ q.pid = p.parent_pid ∧ IsLive q)
  init : ∃ i p, k.process_list i = some p ∧ p.pid = 1 ∧ p.state ≠ .Gone
  empty_slot : ∀ i p, find_empty_slot k.process_list = some i → k.process_list i = some p → p.state = .Gone

/-- The process table is well formed whenever a process is about to run. -/
theorem process_table_invariant {cfg : Config} {allowed : Kernel → Event → Prop} {k : Kernel}
    (reached : Reachable cfg allowed k) : TableInvariant k := by
  obtain ⟨forest,⟨me,slot,isRunning⟩,only⟩ := reachable_sound reached
  obtain ⟨p,running,rfl⟩ := slots_inv slot
  refine ⟨⟨p,running,isRunning⟩,?_,?_,?_,?_,?_,?_⟩
  · intro i q slotQ runs
    exact only (slots_some slotQ) runs
  · intro i j a b slotA slotB same
    exact forest.distinct (slots_some slotA) (slots_some slotB) same
  · intro i q slotQ
    exact ⟨forest.positive (slots_some slotQ),forest.fresh (slots_some slotQ)⟩
  · intro i q slotQ here notInit
    obtain ⟨below,known⟩ := forest.parent (slots_some slotQ) here notInit
    refine ⟨below,known.imp_right ?_⟩
    rintro ⟨j,h,slotH,pid,live⟩
    obtain ⟨r,slotR,rfl⟩ := slots_inv slotH
    exact ⟨j,r,slotR,pid,live⟩
  · obtain ⟨i,h,slotH,pid,_,here⟩ := forest.init
    obtain ⟨r,slotR,rfl⟩ := slots_inv slotH
    exact ⟨i,r,slotR,pid,here⟩
  · intro i q found slotQ
    exact find_empty_slot_some found slotQ

theorem process_table_invariant_of_child : ∃ k init child, Reachable (sample true) WaitsWell k ∧ Wrote k init child ∧
    TableInvariant k := by
  obtain ⟨_,k,init,child,run,_,wrote⟩ := sample_wrote
  have reached := (plain_waits run).reachable
  exact ⟨k,init,child,reached,wrote,process_table_invariant reached⟩

/-- The machine shuts down only when every process is a zombie or gone, and until
    then every blocked process has a child that is still alive. -/
theorem shutdown_when_dead {cfg : Config} {allowed : Kernel → Event → Prop} {k : Kernel} (reached : Reachable cfg allowed k) :
    (∀ e k', step e k = .halted .shutdown k' →
      ∀ i p, k'.process_list i = some p → (∃ code, p.state = .Zombie code) ∨ p.state = .Gone) ∧
    ∀ i p, k.process_list i = some p → p.state = .Blocked →
      ∃ j c, k.process_list j = some c ∧ c.parent_pid = p.pid ∧ IsLive c := by
  have sound := reachable_sound reached
  constructor
  · intro e k' run i p slot
    obtain ⟨me,slotMe,_⟩ := sound.running
    obtain ⟨q,running,_⟩ := slots_inv slotMe
    have ends := step_ends running e
    rw [run] at ends
    exact stuck_dead sound ends i (header p) (slots_some slot)
  · intro i p slot blocked
    obtain ⟨j,h,slotC,mine,live⟩ := sound.forest.blocked (slots_some slot) blocked
    obtain ⟨c,slotC',rfl⟩ := slots_inv slotC
    exact ⟨j,c,slotC',mine,live⟩

/-- Init waits for its child, reaps it after it has exited, and exits itself. -/
theorem shutdown_when_dead_in_turn : ∃ k1 k2 k3 init, Reachable (sample true) WaitsWell k1 ∧ k1.process_list 0 = some init ∧
    init.state = .Blocked ∧ (∃ j c, k1.process_list j = some c ∧ c.parent_pid = init.pid ∧ IsLive c) ∧
    Reachable (sample true) WaitsWell k2 ∧ step (callEvent 93 []) k2 = .halted .shutdown k3 ∧
    ∀ i p, k3.process_list i = some p → (∃ code, p.state = .Zombie code) ∨ p.state = .Gone := by
  obtain ⟨o,k0,k1,k2,g0,g1,_,_,handover⟩ := sample_handover
  obtain ⟨k3,g3,at3,_⟩ := handover.exit
  obtain ⟨k4,g4,at4,_⟩ := stage_reap at3 rfl rfl 1 (by decide +kernel) rfl
    ⟨tableOf [⟨1,0,.Running⟩,⟨2,1,.Gone⟩],0,3⟩ (system_eq (by decide +kernel) rfl rfl)
  have waiting := (plain_waits handover.at2.run).reachable
  have last := (plain_waits at4.run).reachable
  obtain ⟨init,slot,same⟩ := slots_inv (show slots k2.process_list 0 = _ from congrFun (congrArg System.slots handover.at2.procs) 0)
  obtain ⟨me,running,header_me⟩ := @runner_of _ _ ⟨1,0,.Running⟩ at4.procs rfl
  obtain ⟨k5,stops⟩ := exit_stops at4.user running (congrArg Lifecycle.Header.state header_me) (e := callEvent 93 [])
    (.inl (callEvent_calls _ _)) (by
      rw [header_me,callEvent_argument,show k4.current = 0 from congrArg System.current at4.procs,at4.procs]
      decide +kernel)
  have asleep : init.state = .Blocked := congrArg Lifecycle.Header.state same
  exact ⟨k2,k4,k5,init,waiting,slot,asleep,(shutdown_when_dead waiting).2 0 init slot asleep,last,stops,
    (shutdown_when_dead last).1 _ _ stops⟩

end Unit00.Processes
