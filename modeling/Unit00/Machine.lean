import Unit00.Syscall

/-!
The machine around the kernel: entry into a trap and the return to user mode,
what one user instruction or interrupt does, and the boot of the system up to
the first entry into user mode. A user program may do anything at all, so an
event carries the registers it has at that moment.
-/
namespace Unit00.Machine
open Unit00.Memory Unit00.Frame Unit00.Paging Unit00.Paging.PTEntry Unit00.Task Unit00.Scheduler Unit00.Space
open Unit00.Mmu Unit00.Syscall

/-! ### Traps -/

/-- The registers of a user program. -/
structure Context where
  regs : Fin 32 → BitVec 64
  pc : BitVec 64
  sstatus : BitVec 64

/-- The frame that `trap_entry` writes: x0 is stored as zero. -/
def frame_of (ctx : Context) (scause stval : BitVec 64) : TrapFrame where
  regs := Function.update ctx.regs 0 0
  sstatus := ctx.sstatus
  sepc := ctx.pc
  scause := scause
  stval := stval

/-- `trap_entry` up to the call of `trap_handler`: the registers go to the kernel
    stack that `sscratch` names, and `sscratch` is zero from then on. -/
def trap_entry (ctx : Context) (scause stval : BitVec 64) (k : Kernel) : Kernel :=
  { k with
    mm := { k.mm with mem := storeWords k.mm.mem (k.hart.sscratch-TrapFrame.SIZE) (frame_of ctx scause stval).words }
    hart := { k.hart with sscratch := 0 } }

/-- The tail of `trap_entry`: a system call stores its result and steps over the
    `ecall`. -/
def trap_return (frame_base : Nat) (result : Nat) (k : Kernel) : Kernel :=
  if load64 k.mm.mem (frame_base+272) = 8 then
    let m := store64 k.mm.mem (frame_base+80) (BitVec.ofNat 64 result)
    { k with mm := { k.mm with mem := store64 m (frame_base+264) (load64 m (frame_base+264)+4) } }
  else k

/-- `trap_exit_restore` with the stack pointer at a trap frame, up to `sret`. -/
def trap_exit_restore (sp : Nat) (k : Kernel) : Kernel :=
  let tf := TrapFrame.image k.mm.mem sp
  { k with hart := { k.hart with
    regs := Function.update tf.regs 0 0, sepc := tf.sepc, sstatus := tf.sstatus, sscratch := sp+TrapFrame.SIZE } }

/-- Where a stretch of kernel code ends: in user mode again, or nowhere. -/
inductive Outcome
  | user (k : Kernel)
  | halted (why : Diverge) (k : Kernel)

/-- Kernel code that leaves through `trap_exit_restore` enters user mode. -/
def leave : EStateM.Result Diverge Kernel Kernel → Outcome
  | .ok k _ => .user k
  | .error (.restore sp) k => .user (trap_exit_restore sp k)
  | .error why k => .halted why k

/-- A trap from user mode, handled. -/
def trap (ctx : Context) (scause stval : BitVec 64) (k : Kernel) : Outcome :=
  let frame_base := k.hart.sscratch-TrapFrame.SIZE
  leave ((do
    let result ← trap_handler scause stval
    return trap_exit_restore frame_base (trap_return frame_base result (← get)) : K Kernel).run
      (trap_entry ctx scause stval k))

/-! ### User programs -/

/-- What a user program does next: an access to a byte of memory, a system call,
    being interrupted by the timer, or one of the exceptions 0 to 7 (misaligned
    and refused accesses, illegal instructions, breakpoints). -/
inductive Action
  | load (va : BitVec 64)
  | fetch (va : BitVec 64)
  | store (va : BitVec 64) (value : BitVec 8)
  | ecall
  | timer
  | exception (cause : Fin 8)

structure Event where
  ctx : Context
  action : Action

/-- The cause of a page fault. -/
def fault_cause : Access → BitVec 64
  | .fetch => 12
  | .load => 13
  | .store => 15

/-- An access of a user program that the hart translates, or a page fault. -/
def access (ctx : Context) (kind : Access) (va : BitVec 64) (k : Kernel) (done : Nat → Kernel) : Outcome :=
  match translate k.hart k.mm.mem .user kind va.toNat with
  | some pa => .user (done pa)
  | none => trap ctx (fault_cause kind) va k

/-- What an event does. The fetch of an instruction is an event of its own, so
    the runs of these events are more than those of a machine, which fetches
    every instruction. -/
def step (e : Event) (k : Kernel) : Outcome :=
  match e.action with
  | .load va => access e.ctx .load va k fun _ => k
  | .fetch va => access e.ctx .fetch va k fun _ => k
  | .store va value =>
    access e.ctx .store va k fun pa => { k with mm := { k.mm with mem := store8 k.mm.mem pa value } }
  | .ecall => trap e.ctx 8 0 k
  | .timer => trap e.ctx (1 <<< 63 ||| 5) 0 k
  | .exception cause => trap e.ctx (BitVec.ofNat 64 cause) 0 k

/-! ### Boot -/

def USER_CODE_BASE : Nat := 0x10000
def USER_STACK_PAGE : Nat := 0x3F000000
def UART0 : Nat := 0x10000000

/-- What the linker, the firmware and the machine fix: the end of the kernel
    image, the built-in user program in it, the memory that the kernel is loaded
    into, the bytes to come on the console and the hart's Sv39 rule. -/
structure Config where
  kernel_end : Nat
  prog_start : Nat
  prog_end : Nat
  mem : Mem
  input : Nat → BitVec 8
  reserved_fault : Bool

/-- The pages of the user program from `copied` on. -/
def load_program (pt : PageTable) (prog_start prog_len copied : Nat) : M Unit := do
  if _more : copied < prog_len then
    match ← alloc_frame with
    | none => throw (.panic "no frame for user code")
    | some code_page =>
      write_bytes code_page 0 PAGE_SIZE
      copy_nonoverlapping (prog_start+copied) code_page (min PAGE_SIZE (prog_len-copied))
      let _ ← pt.map (USER_CODE_BASE+copied) code_page (PTEFlags.new true false true true)
      load_program pt prog_start prog_len (copied+4096)
termination_by prog_len-copied
decreasing_by omega

/-- The memory that `rust_main` sets up: the page table of init and its kernel
    stack. -/
def boot_memory (cfg : Config) : M (PageTable × Nat) := do
  frame_init cfg.kernel_end
  let (pt,_) ← init_kernel RAM_BASE alloc_frame
  let _ ← pt.map UART0 UART0 (PTEFlags.new true true false false)
  let prog_len := cfg.prog_end-cfg.prog_start
  let mapped_len := mask_page (prog_len+PAGE_SIZE-1)
  if ¬ USER_CODE_BASE+mapped_len ≤ USER_HEAP_START then
    throw (.panic "assertion failed: USER_CODE_BASE + mapped_len <= USER_HEAP_START")
  load_program pt cfg.prog_start prog_len 0
  match ← alloc_frame with
  | none => throw (.panic "no frame for user stack")
  | some stack_page =>
    let _ ← pt.map USER_STACK_PAGE stack_page (PTEFlags.new true true false true)
    match ← alloc_contiguous_frames KERNEL_STACK_PAGES with
    | none => throw (.panic "no frames for init kernel stack")
    | some kernel_stack =>
      write_bytes kernel_stack 0 KERNEL_STACK_SIZE
      return (pt,kernel_stack)

/-- `rust_main`: memory, the init process, and the jump into user mode. -/
def rust_main (cfg : Config) : K Kernel := do
  let (pt,kernel_stack) ← onMm (boot_memory cfg)
  let pid ← alloc_pid
  let init : Process := {
    pid
    parent_pid := 0
    state := .Running
    page_table := pt
    trap_frame := TrapFrame.new_user USER_CODE_BASE 0x3F001000
    kernel_sp := kernel_stack+KERNEL_STACK_SIZE
    kernel_stack_frame := kernel_stack
    heap_start := USER_HEAP_START
    heap_end := USER_HEAP_START
    mmap_areas := fun _ => .EMPTY }
  modify fun k => { k with
    process_list := Function.update k.process_list 0 (some init)
    current := 0
    hart := { k.hart with satp := pt.satp_val } }
  let new_sp := init.kernel_sp-TrapFrame.SIZE
  onMm (init.trap_frame.write_to_stack new_sp)
  throw (.restore new_sp)

/-- The statics as `_start` leaves them: the BSS is zero. -/
def reset (cfg : Config) : Kernel where
  mm := { mem := cfg.mem, next_frame := 0, frame_refs := fun _ => 0, free_list_head := 0 }
  process_list := fun _ => none
  current := 0
  next_pid := 1
  tick_count := 0
  input := cfg.input
  output := []
  hart := {
    regs := fun _ => 0, sepc := 0, sstatus := 0, sscratch := 0, satp := 0
    reserved_fault := cfg.reserved_fault }

def boot (cfg : Config) : Outcome := leave ((rust_main cfg).run (reset cfg))

/-- The states at the entry into user mode that a machine reaches from its boot
    by events that `allowed` admits in the state where they happen. -/
inductive Reachable (cfg : Config) (allowed : Kernel → Event → Prop) : Kernel → Prop
  | boot {k : Kernel} (run : boot cfg = .user k) : Reachable cfg allowed k
  | step {k k' : Kernel} {e : Event} (before : Reachable cfg allowed k) (may : allowed k e)
      (run : step e k = .user k') : Reachable cfg allowed k'

/-- An invariant of the boot and of every allowed event holds in every state
    reached. -/
theorem Reachable.invariant {cfg : Config} {allowed : Kernel → Event → Prop} {I : Kernel → Prop}
    (start : ∀ k, Machine.boot cfg = .user k → I k)
    (keep : ∀ k k' e, Reachable cfg allowed k → I k → allowed k e → Machine.step e k = .user k' → I k')
    {k : Kernel} (reached : Reachable cfg allowed k) : I k := by
  induction reached with
  | boot run => exact start _ run
  | step before may run ih => exact keep _ _ _ before ih may run

end Unit00.Machine
