import Unit00.Isolation
import Unit00.Progress

/-!
What a process finds in its registers when it runs again. The context of a
process is kept twice, in its trap frame and on its kernel stack; which of the
two is restored depends on whether the kernel returned to it or switched to it.
Over whole runs both come to the same: a process goes on from the trap that it
took last, whatever other processes did in between.
-/
namespace Unit00.Contexts
open Unit00.Memory Unit00.Execution Unit00.Frame Unit00.Paging Unit00.Paging.PTEntry Unit00.Trees Unit00.Ownership
open Unit00.Mirror Unit00.Space Unit00.Pages Unit00.Ranges Unit00.Clearing Unit00.Forking Unit00.Access Unit00.Mmu
open Unit00.Task Unit00.Scheduler Unit00.Syscall Unit00.Machine Unit00.Lifecycle Unit00.Steps Unit00.Invariant
open Unit00.Services Unit00.Traps Unit00.View Unit00.Boot Unit00.Runs Unit00.Isolation Unit00.Progress Unit00.Stages

/-! ### The stack image -/

/-- A system call stores its result in a0 and steps over the `ecall`. -/
theorem image_return (frame_base result : Nat) (k : Kernel) :
    TrapFrame.image (trap_return frame_base result k).mm.mem frame_base =
      if (TrapFrame.image k.mm.mem frame_base).scause = 8 then
        { (TrapFrame.image k.mm.mem frame_base).set_a0 (BitVec.ofNat 64 result) with
          sepc := (TrapFrame.image k.mm.mem frame_base).sepc+4 }
      else TrapFrame.image k.mm.mem frame_base := by
  unfold trap_return
  by_cases call : load64 k.mm.mem (frame_base+272) = 8
  · rw [if_pos call,if_pos (show (TrapFrame.image k.mm.mem frame_base).scause = 8 from call)]
    have regs : (fun i : Fin 32 => load64 (store64 (store64 k.mm.mem (frame_base+80) (BitVec.ofNat 64 result)) (frame_base+264)
        (load64 (store64 k.mm.mem (frame_base+80) (BitVec.ofNat 64 result)) (frame_base+264)+4)) (frame_base+8*i)) =
        Function.update (fun i : Fin 32 => load64 k.mm.mem (frame_base+8*i)) TrapFrame.REG_A0 (BitVec.ofNat 64 result) := by
      funext i
      rw [load64_store64_off (by omega)]
      by_cases a0 : i = TrapFrame.REG_A0
      · subst a0
        rw [Function.update_self]
        exact load64_store64 _ _ _
      · have apart : i.val ≠ 10 := fun same => a0 (Fin.ext same)
        rw [Function.update_of_ne a0,load64_store64_off (by omega)]
    unfold TrapFrame.image TrapFrame.set_a0
    dsimp only
    rw [regs,load64_store64,load64_store64_off (a := frame_base+264) (b := frame_base+256) (by omega),
      load64_store64_off (a := frame_base+80) (b := frame_base+256) (by omega),
      load64_store64_off (a := frame_base+264) (b := frame_base+272) (by omega),
      load64_store64_off (a := frame_base+80) (b := frame_base+272) (by omega),
      load64_store64_off (a := frame_base+264) (b := frame_base+280) (by omega),
      load64_store64_off (a := frame_base+80) (b := frame_base+280) (by omega),
      load64_store64_off (a := frame_base+80) (b := frame_base+264) (by omega)]
  · rw [if_neg call,if_neg (show ¬ (TrapFrame.image k.mm.mem frame_base).scause = 8 from call)]

section
variable {exact : Bool} {o : Origin} {k k' : Kernel} {g g' : Ledger} {me : Process} {act : Option Eager.Action} {r : Option Nat}

/-! ### Who is parked where -/

/-- A process that was switched to, before the switch. -/
theorem resumed_back {j i : Fin MAX_PROCESSES} {next q : Process} (chosen : k.process_list j = some next)
    (ready : next.state = .Ready) (slot : (resumed k j next).process_list i = some q) (live : Live (header q)) :
    ∃ p, k.process_list i = some p ∧ Live (header p) ∧ q.pid = p.pid ∧ q.trap_frame = p.trap_frame := by
  by_cases same : i = j
  · subst same
    have here : (resumed k i next).process_list i = some { next with state := .Running } := Function.update_self _ _ _
    rw [slot,Option.some.injEq] at here
    rw [here]
    exact ⟨next,chosen,.inl ready,rfl,rfl⟩
  · have here : k.process_list i = some q := by rw [← slot]; exact (Function.update_of_ne same _ _).symm
    exact ⟨q,here,live,rfl,rfl⟩

/-- A process that outlives a death, before it. -/
theorem ended_back (running : k.process_list k.current = some me) (there : me.state ≠ .Gone) {mm : Mm}
    {output : List (BitVec 8)} {code : Nat} {i : Fin MAX_PROCESSES} {q : Process}
    (slot : (ended k me mm output code).process_list i = some q) (live : Live (header q)) :
    ∃ p, k.process_list i = some p ∧ Live (header p) ∧ q.pid = p.pid ∧ q.trap_frame = p.trap_frame := by
  obtain ⟨p,before,kin⟩ := (shuffled_ended running there mm output code).back slot
  refine ⟨p,before,(ended_live running before slot live).2,?_,?_⟩
  · rw [kin.same]
  · rw [kin.same]

/-- After a trap the trap frame of every process is the one it had, a new child apart, which starts from its
    parent's. The process that the kernel returns to is restored from its stack. -/
theorem Handled.parked (handled : Handled exact o k g me act r k' g') (running : k.process_list k.current = some me)
    (awake : me.state = .Running) {i : Fin MAX_PROCESSES} {q : Process} (slot : k'.process_list i = some q)
    (live : Live (header q)) (away : r.isSome → i ≠ k.current) :
    (∃ p, k.process_list i = some p ∧ Live (header p) ∧ q.pid = p.pid ∧ q.trap_frame = p.trap_frame ∧
      (i = k.current → ∃ args, act = some (.call SYS_WAIT args))) ∨
    (r = some k.next_pid ∧ (∃ args, act = some (.call SYS_FORK args)) ∧ q.pid = k.next_pid ∧
      q.trap_frame = child_frame me.trap_frame) := by
  have there : me.state ≠ .Gone := by rw [awake]; simp
  cases handled with
  | quiet serves =>
    rw [serves.kept.others i (away rfl)] at slot
    exact .inl ⟨q,slot,live,rfl,rfl,fun here => absurd here (away rfl)⟩
  | call _ _ _ serves =>
    rw [serves.kept.others i (away rfl)] at slot
    exact .inl ⟨q,slot,live,rfl,rfl,fun here => absurd here (away rfl)⟩
  | full => exact .inl ⟨q,slot,live,rfl,rfl,fun here => absurd here (away rfl)⟩
  | childless => exact .inl ⟨q,slot,live,rfl,rfl,fun here => absurd here (away rfl)⟩
  | @fork args idx c s mm _ free forked =>
    dsimp only at slot
    by_cases same : i = idx
    · rw [same,Function.update_self,Option.some.injEq] at slot
      rw [← slot]
      exact .inr ⟨rfl,⟨args,rfl⟩,rfl,rfl⟩
    · rw [Function.update_of_ne same] at slot
      exact .inl ⟨q,slot,live,rfl,rfl,fun here => absurd here (away rfl)⟩
  | @reap args idx child code k1 g1 _ mm slotC mine dead serves good freeing _ =>
    dsimp only at slot
    by_cases same : i = idx
    · rw [same,Function.update_self,Option.some.injEq] at slot
      rw [← slot] at live
      exact absurd rfl (live_there live)
    · rw [Function.update_of_ne same,serves.kept.others i (away rfl)] at slot
      exact .inl ⟨q,slot,live,rfl,rfl,fun here => absurd here (away rfl)⟩
  | @block args _ j child next clean _ mine _ chosen ready _ =>
    obtain ⟨p,before,live',pid,frame⟩ := resumed_back chosen ready slot live
    by_cases same : i = k.current
    · have here : (blocked k me).process_list k.current = some { me with state := .Blocked } := Function.update_self _ _ _
      rw [← same,before,Option.some.injEq] at here
      refine .inl ⟨me,by rw [same]; exact running,.inr (.inl awake),?_,?_,fun _ => ⟨args,rfl⟩⟩
      · rw [pid,here]
      · rw [frame,here]
    · have here : k.process_list i = some p := by rw [← before]; exact (Function.update_of_ne same _ _).symm
      exact .inl ⟨p,here,live',pid,frame,fun here => absurd here same⟩
  | @exit number args mm _ j next exits acts chosen ready _ =>
    obtain ⟨p,before,live',pid,frame⟩ := resumed_back chosen ready slot live
    obtain ⟨p0,first,live0,pid0,frame0⟩ := ended_back running there before live'
    exact .inl ⟨p0,first,live0,pid.trans pid0,frame.trans frame0,
      fun here => absurd here (ended_live running first before live').1⟩
  | @killed output j next leaky chosen ready _ =>
    obtain ⟨p,before,live',pid,frame⟩ := resumed_back chosen ready slot live
    obtain ⟨p0,first,live0,pid0,frame0⟩ := ended_back running there before live'
    exact .inl ⟨p0,first,live0,pid.trans pid0,frame.trans frame0,
      fun here => absurd here (ended_live running first before live').1⟩

/-- A trap frame on a kernel stack that nobody wrote to. -/
theorem image_page (inv : Inv exact o k g) {i : Fin MAX_PROCESSES} {p : Process} (slot : k.process_list i = some p)
    (there : p.state ≠ .Gone) {mem : Mem} (bytes : ∀ c, c < 4096 → mem (framePage p+c) = k.mm.mem (framePage p+c)) :
    TrapFrame.image mem (p.kernel_sp-TrapFrame.SIZE) = trapped k p := by
  obtain ⟨_,place,_⟩ := inv.link.framePage slot there
  refine image_congr fun b low high => ?_
  rw [place] at low high
  have split : b = framePage p+(b-framePage p) := by omega
  rw [split]
  exact bytes _ (by omega)

/-- The process that the kernel returns to finds the trap frame of its trap on its stack, and the page table is still
    its own. -/
theorem Handled.returning (handled : Handled exact o k g me act r k' g') (returns : r.isSome) (inv : Inv exact o k g)
    (running : k.process_list k.current = some me) (awake : me.state = .Running) :
    TrapFrame.image k'.mm.mem (me.kernel_sp-TrapFrame.SIZE) = trapped k me ∧ k'.hart.satp = k.hart.satp := by
  have there : me.state ≠ .Gone := by rw [awake]; simp
  obtain ⟨owner,_,_⟩ := inv.link.framePage running there
  have served : ∀ {k1 : Kernel} {g1 : Ledger} {a : Eager.Image} {input : Nat → BitVec 8},
      Serves exact o.base me k k1 g g1 a input →
      TrapFrame.image k1.mm.mem (me.kernel_sp-TrapFrame.SIZE) = trapped k me ∧ k1.hart.satp = k.hart.satp := by
    intro k1 g1 a input serves
    exact ⟨image_page inv running there fun c inside => serves.aside.stack_bytes _ _ c owner inside,by rw [serves.kept.hart]⟩
  cases handled with
  | quiet serves => exact served serves
  | call _ _ _ serves => exact served serves
  | full => exact ⟨rfl,rfl⟩
  | childless => exact ⟨rfl,rfl⟩
  | fork free forked => exact ⟨image_page inv running there fun c inside => forked.stack_bytes _ _ c owner inside,rfl⟩
  | @reap args idx child code k1 g1 _ mm slotC mine dead serves good freeing _ =>
    refine ⟨image_page inv running there fun c inside => ?_,(served serves).2⟩
    have kept := serves.aside.stack_bytes _ _ c owner inside
    have aligned := (inv.good.mirrors.pool.managed (f := framePage me) (by rw [owner]; simp)).1
    rw [← kept]
    refine freeing.change.byte aligned inside ?_
    -- The stack of the caller is none of the frames of the child.
    have owner1 := (serves.aside.stack _ _).mpr owner
    rintro (stack | ⟨_,low⟩ | ⟨_,mid⟩ | top)
    · rw [owner1,Ownership.Owner.stack.injEq] at stack
      have same := inv.link.own_stack running slotC there (by rw [dead]; simp) stack
      rw [← same,running,Option.some.injEq] at slotC
      rw [← slotC,awake] at dead
      cases dead
    · rw [owner1] at low
      cases low
    · rw [owner1] at mid
      cases mid
    · have root := (serves.aside.roots _).mpr (inv.link.root slotC (by rw [dead]; simp))
      rw [← top,owner1] at root
      cases root
  | block => cases returns
  | exit => cases returns
  | killed => cases returns

/-- The process that the kernel switches to finds its saved trap frame on its stack, and its page table in `satp`. -/
theorem Handled.switching (handled : Handled exact o k g me act none k' g') {next : Process}
    (slot : k'.process_list k'.current = some next) :
    TrapFrame.image k'.mm.mem (next.kernel_sp-TrapFrame.SIZE) = next.trap_frame ∧
      k'.hart.satp = next.page_table.satp_val := by
  have switched : ∀ {k1 : Kernel} {j : Fin MAX_PROCESSES} {p : Process},
      (resumed k1 j p).process_list (resumed k1 j p).current = some next →
      TrapFrame.image (resumed k1 j p).mm.mem (next.kernel_sp-TrapFrame.SIZE) = next.trap_frame ∧
        (resumed k1 j p).hart.satp = next.page_table.satp_val := by
    intro k1 j p here
    have chosen : (resumed k1 j p).process_list (resumed k1 j p).current = some { p with state := .Running } :=
      Function.update_self _ _ _
    rw [here,Option.some.injEq] at chosen
    rw [chosen]
    exact ⟨image_words _ _ _,rfl⟩
  cases handled with
  | block => exact switched slot
  | exit => exact switched slot
  | killed => exact switched slot

end

/-! ### What a process is owed -/

/-- What the trap of an event returns to the process that raised it, if it returns. -/
def returned (k : Kernel) (e : Event) : Option Nat := (trapOf k e).bind fun cause => answer e.ctx cause.1 cause.2 k

/-- The context after a system call that returned `r`. -/
def answered (ctx : Context) (r : Nat) : Context :=
  { ctx with regs := Function.update ctx.regs TrapFrame.REG_A0 (BitVec.ofNat 64 r), pc := ctx.pc+4 }

open Classical in
/-- The context in which a process goes on after its own trap: as it was, with the result of a system call that
    returned; a wait that blocks is executed again. -/
noncomputable def resumes (k : Kernel) (e : Event) : Option Context :=
  match returned k e with
  | some r => if e.action = .ecall then some (answered e.ctx r) else some e.ctx
  | none => if Calls e SYS_WAIT then some e.ctx else none

open Classical in
/-- The context in which a process goes on, by what happened so far (the latest event first): the one after its own
    last trap; before its first trap that of its parent at the fork, with 0 for the result. -/
noncomputable def owed : List (Kernel × Event) → Nat → Option Context
  | [], _ => none
  | (k,e) :: before, pid =>
    if (∃ me, runner k = some me ∧ me.pid = pid) ∧ trapOf k e ≠ none then resumes k e
    else if Calls e SYS_FORK ∧ pid = k.next_pid ∧ returned k e = some pid then some (answered e.ctx 0)
    else owed before pid

/-- The hart goes on in user mode with a context; x0 is always zero. -/
structure Restored (k : Kernel) (ctx : Context) : Prop where
  regs : ∀ i, i ≠ 0 → k.hart.regs i = ctx.regs i
  sepc : k.hart.sepc = ctx.pc
  sstatus : k.hart.sstatus = ctx.sstatus

/-- A trap frame that holds a context. -/
structure Holds (tf : TrapFrame) (ctx : Context) : Prop where
  regs : ∀ i, i ≠ 0 → tf.regs i = ctx.regs i
  sepc : tf.sepc = ctx.pc
  sstatus : tf.sstatus = ctx.sstatus

theorem holds_frame (ctx : Context) (scause stval : BitVec 64) : Holds (frame_of ctx scause stval) ctx :=
  ⟨fun _ used => regs_frame_of ctx scause stval used,rfl,rfl⟩

/-- The trap frame of a system call that returned, or of the child that it made. -/
theorem Holds.answered {tf : TrapFrame} {ctx : Context} (holds : Holds tf ctx) (r : Nat) :
    Holds { tf.set_a0 (BitVec.ofNat 64 r) with sepc := tf.sepc+4 } (answered ctx r) := by
  refine ⟨fun i used => ?_,?_,holds.sstatus⟩
  · show Function.update tf.regs TrapFrame.REG_A0 _ i = Function.update ctx.regs TrapFrame.REG_A0 _ i
    by_cases a0 : i = TrapFrame.REG_A0
    · rw [a0,Function.update_self,Function.update_self]
    · rw [Function.update_of_ne a0,Function.update_of_ne a0,holds.regs i used]
  · show tf.sepc+4 = ctx.pc+4
    rw [holds.sepc]

theorem holds_child (ctx : Context) (scause stval : BitVec 64) :
    Holds (child_frame (frame_of ctx scause stval)) (answered ctx 0) := by
  obtain ⟨regs,sepc,sstatus⟩ := (holds_frame ctx scause stval).answered 0
  exact ⟨regs,sepc,sstatus⟩

/-- The hart after `trap_exit_restore`. -/
theorem restored_of {k : Kernel} {sp : Nat} {ctx : Context} (holds : Holds (TrapFrame.image k.mm.mem sp) ctx) :
    Restored (trap_exit_restore sp k) ctx := by
  refine ⟨fun i used => ?_,holds.sepc,holds.sstatus⟩
  show Function.update (TrapFrame.image k.mm.mem sp).regs 0 0 i = ctx.regs i
  rw [Function.update_of_ne used]
  exact holds.regs i used

theorem resumes_call {k : Kernel} {e : Event} {r : Nat} (done : returned k e = some r) (call : e.action = .ecall) :
    resumes k e = some (answered e.ctx r) := by
  rw [resumes,done]
  exact if_pos call

theorem resumes_fault {k : Kernel} {e : Event} {r : Nat} (done : returned k e = some r) (other : e.action ≠ .ecall) :
    resumes k e = some e.ctx := by
  rw [resumes,done]
  exact if_neg other

theorem resumes_wait {k : Kernel} {e : Event} (left : returned k e = none) (wait : Calls e SYS_WAIT) :
    resumes k e = some e.ctx := by
  rw [resumes,left]
  exact if_pos wait

theorem owed_mine {k : Kernel} {e : Event} {before : List (Kernel × Event)} {me : Process} (running : runner k = some me)
    (traps : trapOf k e ≠ none) : owed ((k,e) :: before) me.pid = resumes k e := by
  rw [owed,if_pos ⟨⟨me,running,rfl⟩,traps⟩]

theorem owed_child {k : Kernel} {e : Event} {before : List (Kernel × Event)} {me : Process} (running : runner k = some me)
    (fresh : me.pid ≠ k.next_pid) (fork : Calls e SYS_FORK) (done : returned k e = some k.next_pid) :
    owed ((k,e) :: before) k.next_pid = some (answered e.ctx 0) := by
  rw [owed,if_neg,if_pos ⟨fork,rfl,done⟩]
  rintro ⟨⟨me',here,same⟩,_⟩
  rw [running,Option.some.injEq] at here
  rw [here] at fresh
  exact fresh same

theorem owed_other {k : Kernel} {e : Event} {before : List (Kernel × Event)} {me : Process} (running : runner k = some me)
    {pid : Nat} (other : me.pid ≠ pid ∨ trapOf k e = none) (old : pid < k.next_pid) :
    owed ((k,e) :: before) pid = owed before pid := by
  rw [owed,if_neg,if_neg]
  · rintro ⟨_,same,_⟩
    omega
  · rintro ⟨⟨me',here,same⟩,traps⟩
    rw [running,Option.some.injEq] at here
    rw [here] at other
    exact other.elim (fun apart => apart same) traps

/-! ### Every step -/

/-- Every live process that does not run has the context in its trap frame that it is owed, and the hart uses the
    page table of the process that runs. -/
structure Parked (history : List (Kernel × Event)) (k : Kernel) : Prop where
  frames : ∀ i p, k.process_list i = some p → i ≠ k.current → Live (header p) →
    ∃ ctx, owed history p.pid = some ctx ∧ Holds p.trap_frame ctx
  satp : ∀ me, k.process_list k.current = some me → k.hart.satp = me.page_table.satp_val

/-- The process that enters user mode goes on with the context that it is owed, on its own kernel stack and in its own
    address space. -/
def GoesOn (history : List (Kernel × Event)) (k : Kernel) : Prop :=
  ∃ me ctx, runner k = some me ∧ owed history me.pid = some ctx ∧ Restored k ctx ∧ k.hart.sscratch = me.kernel_sp ∧
    k.hart.satp = me.page_table.satp_val

section
variable {exact : Bool} {o : Origin} {k k' : Kernel} {g : Ledger} {me : Process} {e : Event} {history : List (Kernel × Event)}
  (user : InUser exact o k g) (running : k.process_list k.current = some me) (awake : me.state = .Running)
  (sound : Lifecycle.Sound (procs k)) (parked : Parked history k)

include user running awake sound parked

/-- After a trap every live process, the one that the kernel returns to apart, has the context that it is owed. -/
theorem trap_frames {scause stval : BitVec 64} (traps : trapOf k e = some (scause,stval)) {r : Option Nat} {kh : Kernel}
    {g' : Ledger} (handled : Handled exact o (entered e.ctx scause stval k me) g (stopped e.ctx scause stval me)
      (asked g me.page_table.root e.ctx scause stval) r kh g') (same : returned k e = r) {i : Fin MAX_PROCESSES}
    {q : Process} (slot : kh.process_list i = some q) (live : Live (header q)) (away : r.isSome → i ≠ k.current) :
    ∃ ctx, owed ((k,e) :: history) q.pid = some ctx ∧ Holds q.trap_frame ctx := by
  have noisy : trapOf k e ≠ none := by rw [traps]; simp
  have seen := visible_trap user running awake traps
  obtain ⟨_,_,running1,_,_⟩ := entered_inv user running awake e.ctx scause stval
  have fresh : ∀ {i p}, k.process_list i = some p → p.pid < k.next_pid := fun slot => sound.forest.fresh (slots_some slot)
  rcases Handled.parked handled running1 awake slot live away with ⟨p,before,liveP,pid,frame,wait⟩ | ⟨done,⟨args,fork⟩,pid,frame⟩
  · by_cases here : i = k.current
    · subst here
      rw [running1,Option.some.injEq] at before
      obtain ⟨args,asks⟩ := wait rfl
      have left : returned k e = none := by
        rw [same,← Option.not_isSome_iff_eq_none]
        exact fun some => away some rfl
      refine ⟨e.ctx,?_,?_⟩
      · rw [pid,← before]
        show owed _ me.pid = _
        rw [owed_mine running noisy,resumes_wait left (visible_call (seen.trans asks)).1]
      · rw [frame,← before]
        exact holds_frame _ _ _
    · have before' : k.process_list i = some p := by rw [← before]; exact (Function.update_of_ne here _ _).symm
      obtain ⟨ctx,due,holds⟩ := parked.frames i p before' here liveP
      have apart : me.pid ≠ p.pid := fun equal => here (sound.forest.distinct (slots_some before') (slots_some running) equal.symm)
      refine ⟨ctx,?_,by rw [frame]; exact holds⟩
      rw [pid,owed_other running (.inl apart) (fresh before')]
      exact due
  · refine ⟨answered e.ctx 0,?_,?_⟩
    · rw [pid]
      exact owed_child running (fresh running).ne (visible_call (seen.trans fork)).1 (same.trans done)
    · rw [frame]
      exact holds_child _ _ _

/-- A trap parks the processes that do not run, and the one that runs goes on with the context that it is owed. -/
theorem trap_parked {scause stval : BitVec 64} (traps : trapOf k e = some (scause,stval))
    (permitted : Permitted exact g me.page_table.root e.ctx scause stval) (run : trap e.ctx scause stval k = .user k') :
    Parked ((k,e) :: history) k' ∧ GoesOn ((k,e) :: history) k' := by
  have noisy : trapOf k e ≠ none := by rw [traps]; simp
  obtain ⟨inv1,home1,running1,synced,_⟩ := entered_inv user running awake e.ctx scause stval
  obtain ⟨r,kh,g',next,handled,slot_next,rfl,same⟩ := trap_handled user running awake permitted run
  have done : returned k e = r := by
    rw [returned,traps]
    exact same
  obtain ⟨next',slot_next',awake_next,kept⟩ := handled.next running1 awake
  rw [slot_next,Option.some.injEq] at slot_next'
  rw [← slot_next'] at awake_next kept
  have frames := fun {i q} => trap_frames user running awake sound parked traps handled done (i := i) (q := q)
  obtain ⟨invh,homeh⟩ := handled.keeps inv1 home1 running1 awake
  obtain ⟨after,_⟩ := leaving_user invh homeh slot_next awake_next r
  have table := (leaving_rest r (next.kernel_sp-TrapFrame.SIZE) kh).1
  have place : (leaving r (next.kernel_sp-TrapFrame.SIZE) kh).current = kh.current := congrArg System.current (procs_leaving r _ kh)
  obtain ⟨mem,hart,equal,_,satp,_,_⟩ := leaving_memory (invh.link.framePage slot_next (by rw [awake_next]; simp)).2.1
    (invh.good.mirrors.pool.managed (by rw [(invh.link.framePage slot_next (by rw [awake_next]; simp)).1]; simp)).1 r kh
  have root : (leaving r (next.kernel_sp-TrapFrame.SIZE) kh).hart.satp = next.page_table.satp_val := by
    rw [equal]
    refine satp.trans ?_
    cases r with
    | none => exact (Handled.switching handled slot_next).2
    | some value =>
      rw [(Handled.returning handled rfl inv1 running1 awake).2,(kept rfl).2.page_table]
      exact parked.satp me running
  have mine : runner (leaving r (next.kernel_sp-TrapFrame.SIZE) kh) = some next := by
    rw [runner,table,place]
    exact slot_next
  refine ⟨⟨?_,?_⟩,?_⟩
  · intro i p slot other live
    rw [table] at slot
    rw [place] at other
    exact frames slot live fun some => by rw [(kept some).1] at other; exact other
  · intro p slot
    rw [runner,slot,Option.some.injEq] at mine
    rw [mine]
    exact root
  · refine ⟨next,?_⟩
    have scratch := after.sscratch next mine
    cases r with
    | none =>
      obtain ⟨ctx,due,holds⟩ := frames slot_next (.inr (.inl awake_next)) fun some => by cases some
      refine ⟨ctx,mine,due,restored_of ?_,scratch,root⟩
      rw [(Handled.switching handled slot_next).1]
      exact holds
    | some value =>
      obtain ⟨_,same_next⟩ := kept rfl
      have pid : next.pid = me.pid := same_next.pid
      have image : TrapFrame.image kh.mm.mem (next.kernel_sp-TrapFrame.SIZE) = frame_of e.ctx scause stval := by
        rw [same_next.kernel_sp,(Handled.returning handled rfl inv1 running1 awake).1]
        exact synced
      have restore := image_return (next.kernel_sp-TrapFrame.SIZE) value kh
      rw [image] at restore
      by_cases call : scause = 8
      · refine ⟨answered e.ctx value,mine,?_,restored_of ?_,scratch,root⟩
        · rw [pid,owed_mine running noisy]
          exact resumes_call done (trapOf_call (by rw [traps,call]))
        · show Holds (TrapFrame.image (trap_return (next.kernel_sp-TrapFrame.SIZE) value kh).mm.mem _) _
          rw [restore,if_pos (show (frame_of e.ctx scause stval).scause = 8 from call)]
          exact (holds_frame _ _ _).answered _
      · refine ⟨e.ctx,mine,?_,restored_of ?_,scratch,root⟩
        · rw [pid,owed_mine running noisy]
          refine resumes_fault done fun ecall => call ?_
          rw [trapOf,ecall] at traps
          exact (congrArg Prod.fst (Option.some.inj traps)).symm
        · show Holds (TrapFrame.image (trap_return (next.kernel_sp-TrapFrame.SIZE) value kh).mm.mem _) _
          rw [restore,if_neg (show ¬ (frame_of e.ctx scause stval).scause = 8 from call)]
          exact holds_frame _ _ _

omit user running awake sound parked in
theorem accessed_rest (k : Kernel) (e : Event) : ∃ mm, accessed k e = { k with mm := mm } := by
  unfold accessed
  split
  · split
    · exact ⟨_,rfl⟩
    · exact ⟨_,rfl⟩
  · exact ⟨_,rfl⟩

/-- A process that was not there before the step is the child of a fork: the caller gets its pid, and the child is owed
    the context of the caller with 0 for the result. -/
theorem step_born (waits : WaitsWell k e) (clean : exact = true → Clean k e) (run : step e k = .user k')
    {i : Fin MAX_PROCESSES} {c : Process} (slot : k'.process_list i = some c) (live : Live (header c))
    (new : ∀ p, k.process_list i = some p → p.pid ≠ c.pid) :
    Calls e SYS_FORK ∧ owed ((k,e) :: history) c.pid = some (answered e.ctx 0) ∧ k'.hart.regs 10 = BitVec.ofNat 64 c.pid := by
  rcases step_split user running awake run waits clean with ⟨silent,rfl⟩ | ⟨scause,stval,traps,run,seen,permitted⟩
  · obtain ⟨mm,rest⟩ := accessed_rest k e
    rw [rest] at slot
    exact absurd rfl (new c slot)
  obtain ⟨_,next,ctx,running',due,restored,_⟩ := trap_parked user running awake sound parked traps permitted run
  obtain ⟨_,_,running1,_,_⟩ := entered_inv user running awake e.ctx scause stval
  obtain ⟨r,kh,g',nexth,handled,slot_next,rfl,same⟩ := trap_handled user running awake permitted run
  obtain ⟨nexth',slot_next',_,kept⟩ := handled.next running1 awake
  rw [slot_next,Option.some.injEq] at slot_next'
  rw [← slot_next'] at kept
  have place : (leaving r (nexth.kernel_sp-TrapFrame.SIZE) kh).current = kh.current := congrArg System.current (procs_leaving r _ kh)
  have table := (leaving_rest r (nexth.kernel_sp-TrapFrame.SIZE) kh).1
  rw [runner,table,place,slot_next,Option.some.injEq] at running'
  rw [table] at slot
  have away : r.isSome → i ≠ k.current := by
    intro returns here
    obtain ⟨unmoved,kin⟩ := kept returns
    have equal : kh.current = i := by rw [unmoved,here]; rfl
    rw [equal,slot,Option.some.injEq] at slot_next
    refine new me (by rw [here]; exact running) ?_
    rw [slot_next,kin.pid]
    rfl
  rcases Handled.parked handled running1 awake slot live away with ⟨p,before,_,pid,_,_⟩ | ⟨answer,⟨args,fork⟩,pid,_⟩
  · by_cases here : i = k.current
    · subst here
      rw [running1,Option.some.injEq] at before
      refine absurd ?_ (new me running)
      rw [pid,← before]
      rfl
    · have before' : k.process_list i = some p := by rw [← before]; exact (Function.update_of_ne here _ _).symm
      exact absurd pid.symm (new p before')
  · have calls : Calls e SYS_FORK := (visible_call (seen.trans fork)).1
    have noisy : trapOf k e ≠ none := by rw [traps]; simp
    have done : returned k e = some k.next_pid := by
      rw [returned,traps]
      exact same.trans answer
    have fresh : me.pid < k.next_pid := sound.forest.fresh (slots_some running)
    have pid' : c.pid = k.next_pid := pid
    rw [pid']
    refine ⟨calls,owed_child running fresh.ne calls done,?_⟩
    have pid_next : next.pid = me.pid := by
      rw [← running',(kept (by rw [answer]; rfl)).2.pid]
      rfl
    rw [pid_next,owed_mine running noisy,resumes_call done calls.1,Option.some.injEq] at due
    rw [restored.regs 10 (by decide),← due]
    rfl

theorem step_parked (waits : WaitsWell k e) (clean : exact = true → Clean k e) (run : step e k = .user k') :
    Parked ((k,e) :: history) k' ∧ (trapOf k e ≠ none → GoesOn ((k,e) :: history) k') := by
  rcases step_split user running awake run waits clean with ⟨silent,rfl⟩ | ⟨scause,stval,traps,run,_,permitted⟩
  · obtain ⟨mm,rest⟩ := accessed_rest k e
    refine ⟨?_,fun noisy => absurd silent noisy⟩
    rw [rest]
    refine ⟨fun i p slot other live => ?_,parked.satp⟩
    obtain ⟨ctx,due,holds⟩ := parked.frames i p slot other live
    have old : p.pid < k.next_pid := sound.forest.fresh (slots_some slot)
    refine ⟨ctx,?_,holds⟩
    rw [owed_other running (.inr silent) old]
    exact due
  · obtain ⟨after,goes⟩ := trap_parked user running awake sound parked traps permitted run
    exact ⟨after,fun _ => goes⟩

end

/-! ### Every run -/

theorem boot_parked {cfg : Config} {r s : Nat} {m : Mm} : Parked [] (launched cfg r s m) := by
  refine ⟨fun i p slot other _ => ?_,fun me slot => ?_⟩
  · exact absurd (launched_only slot).1 other
  · rw [(launched_only slot).2]
    rfl

theorem run_parked {cfg : Config} {history : List (Kernel × Event)} {k : Kernel} (run : Run cfg WaitsWell history k) :
    Parked history k := by
  induction run with
  | boot run =>
    obtain ⟨r,s,m,g,rfl,_⟩ := boot_launch false run
    exact boot_parked
  | step before may run ih =>
    obtain ⟨me,running,awake⟩ := reachable_awake before.reachable
    obtain ⟨_,_,_,_,g,_,_,user⟩ := reachable_user false (fun _ _ waits => ⟨waits,by simp⟩) before.reachable
    exact (step_parked user running awake (reachable_sound before.reachable) ih may (by simp) run).1

/-- Context switches are transparent: after every trap of every run the process that enters user mode goes on from its
    own last trap, and a new process from the trap of its parent. -/
theorem context_switch_transparent {cfg : Config} {history : List (Kernel × Event)} {k k' : Kernel} {e : Event}
    (run : Run cfg WaitsWell ((k,e) :: history) k') :
    (trapOf k e ≠ none → GoesOn ((k,e) :: history) k') ∧
    ∀ i c, k'.process_list i = some c → Processes.IsLive c → (∀ p, k.process_list i = some p → p.pid ≠ c.pid) →
      Calls e SYS_FORK ∧ owed ((k,e) :: history) c.pid = some (answered e.ctx 0) ∧ k'.hart.regs 10 = BitVec.ofNat 64 c.pid := by
  cases run with
  | step before may run =>
    obtain ⟨me,running,awake⟩ := reachable_awake before.reachable
    obtain ⟨_,_,_,_,g,_,_,user⟩ := reachable_user false (fun _ _ waits => ⟨waits,by simp⟩) before.reachable
    have sound := reachable_sound before.reachable
    have parked := run_parked before
    refine ⟨(step_parked user running awake sound parked may (by simp) run).2,fun i c slot live new => ?_⟩
    exact step_born user running awake sound parked may (by simp) run slot live new

/-- Init forks and waits; its child runs for the first time and exits; init goes on from its wait. -/
theorem context_switch_transparent_there_and_back : ∃ k0 k1 k2 k3,
    Run (sample true) WaitsWell [(k2,callEvent 93 []),(k1,callEvent 260 []),(k0,callEvent 220 [])] k3 ∧
    k1.current = 0 ∧ k2.current = 1 ∧ k3.current = 0 ∧
    GoesOn [(k1,callEvent 260 []),(k0,callEvent 220 [])] k2 ∧
    GoesOn [(k2,callEvent 93 []),(k1,callEvent 260 []),(k0,callEvent 220 [])] k3 := by
  obtain ⟨o,k0,k1,k2,g0,g1,_,_,handover⟩ := sample_handover
  obtain ⟨k3,g3,at3,_⟩ := handover.exit
  have at1 := handover.at1
  have at2 := handover.at2
  have blocked := plain_waits at2.run
  have back := plain_waits at3.run
  exact ⟨k0,k1,k2,k3,back,congrArg System.current at1.procs,congrArg System.current at2.procs,congrArg System.current at3.procs,
    (context_switch_transparent blocked).1 (by simp [trapOf,callEvent]),
    (context_switch_transparent back).1 (by simp [trapOf,callEvent])⟩

end Unit00.Contexts
