import Unit00.Paging

/-!
Processes and the kernel state around them: trap frames, the address-space
records of a process, the process table, the console and the registers of the
one hart.
-/
namespace Unit00.Task
open Unit00.Memory Unit00.Frame Unit00.Paging

/-! ### Trap frames -/

/-- The user registers at a trap, as `trap_entry` leaves them on the kernel stack. -/
structure TrapFrame where
  regs : Fin 32 → BitVec 64
  sstatus : BitVec 64
  sepc : BitVec 64
  scause : BitVec 64
  stval : BitVec 64

namespace TrapFrame

def REG_SP : Fin 32 := 2
def REG_A0 : Fin 32 := 10
def SSTATUS_SPIE : BitVec 64 := 1 <<< 5
def SIZE : Nat := 288

def new_user (entry user_sp : Nat) : TrapFrame where
  regs := Function.update (fun _ => 0) REG_SP (BitVec.ofNat 64 user_sp)
  sstatus := SSTATUS_SPIE
  sepc := BitVec.ofNat 64 entry
  scause := 8
  stval := 0

def set_a0 (tf : TrapFrame) (value : BitVec 64) : TrapFrame := { tf with regs := Function.update tf.regs REG_A0 value }

def set_sp (tf : TrapFrame) (value : BitVec 64) : TrapFrame := { tf with regs := Function.update tf.regs REG_SP value }

/-- The 36 words of the stack image, in memory order. -/
def words (tf : TrapFrame) : List (BitVec 64) := List.ofFn tf.regs ++ [tf.sstatus,tf.sepc,tf.scause,tf.stval]

/-- The trap frame whose stack image starts at `frame_base`. -/
def image (m : Mem) (frame_base : Nat) : TrapFrame where
  regs i := load64 m (frame_base+8*i)
  sstatus := load64 m (frame_base+256)
  sepc := load64 m (frame_base+264)
  scause := load64 m (frame_base+272)
  stval := load64 m (frame_base+280)

def read_from_stack (frame_base : Nat) : M TrapFrame := do return image (← get).mem frame_base

def write_to_stack (tf : TrapFrame) (frame_base : Nat) : M Unit :=
  modify fun m => { m with mem := storeWords m.mem frame_base tf.words }

@[simp] theorem run_read_from_stack (frame_base : Nat) (m : Mm) :
    (read_from_stack frame_base).run m = .ok (image m.mem frame_base) m := rfl

@[simp] theorem run_write_to_stack (tf : TrapFrame) (frame_base : Nat) (m : Mm) :
    (tf.write_to_stack frame_base).run m = .ok ⟨⟩ { m with mem := storeWords m.mem frame_base tf.words } := rfl

end TrapFrame

/-! ### Processes -/

def USER_HEAP_START : Nat := 0x20000
def USER_HEAP_LIMIT : Nat := 0x3e000000
def USER_MMAP_START : Nat := USER_HEAP_LIMIT
def USER_MMAP_LIMIT : Nat := 0x3f000000
def MAX_MMAP_AREAS : Nat := 32
def KERNEL_STACK_PAGES : Nat := 8
def KERNEL_STACK_SIZE : Nat := KERNEL_STACK_PAGES*4096

structure MmapArea where
  start : Nat
  len : Nat
  prot : Nat
  flags : Nat
  used : Bool
  deriving DecidableEq

def MmapArea.EMPTY : MmapArea := { start := 0, len := 0, prot := 0, flags := 0, used := false }

/-- `MmapArea::end` -/
def MmapArea.area_end (area : MmapArea) : Nat := area.start+area.len

/-- The area table of a process. -/
abbrev Areas := Fin MAX_MMAP_AREAS → MmapArea

inductive ProcessState
  | Ready
  | Running
  | Blocked
  | Zombie (code : Nat)
  | Gone
  deriving DecidableEq

structure Process where
  pid : Nat
  parent_pid : Nat
  state : ProcessState
  page_table : PageTable
  trap_frame : TrapFrame
  kernel_sp : Nat
  kernel_stack_frame : Nat
  heap_start : Nat
  heap_end : Nat
  mmap_areas : Areas

def MAX_PROCESSES : Nat := 32

instance : NeZero MAX_PROCESSES := ⟨by decide⟩

/-- `PROCESS_LIST` -/
abbrev Table := Fin MAX_PROCESSES → Option Process

/-! ### The kernel state -/

/-- The registers of the hart. `regs`, `sepc` and `sstatus` are those it enters
    user mode with; `reserved_fault` says whether it faults on an entry with one
    of the bits 63 to 54 set, as Sv39 without Svpbmt and Svnapot requires. -/
structure Hart where
  regs : Fin 32 → BitVec 64
  sepc : BitVec 64
  sstatus : BitVec 64
  sscratch : Nat
  satp : BitVec 64
  reserved_fault : Bool

/-- Everything the kernel keeps: physical memory with the frame allocator, the
    statics of the scheduler and of the trap handler, the console (what is still
    to be read and what was written) and the hart. The statics are not bytes of
    the memory, so a stray store of the kernel does not reach them here; results
    on runs ask for waits whose status pointer is null or user memory. -/
structure Kernel where
  mm : Mm
  process_list : Table
  current : Fin MAX_PROCESSES
  next_pid : Nat
  tick_count : Nat
  input : Nat → BitVec 8
  output : List (BitVec 8)
  hart : Hart

/-- How kernel code leaves without returning to its caller. `restore` is the
    jump to `trap_exit_restore` with the stack pointer it was given. -/
inductive Diverge
  | panicked (panic : Panic)
  | shutdown
  | restore (sp : Nat)
  | unexpected_trap (scause : BitVec 64)
  | kernel_trap (scause stval : BitVec 64)
  deriving Repr, DecidableEq

/-- A panic of kernel code. -/
def Diverge.panic (message : String) : Diverge := .panicked (.panic message)

/-- Kernel code. -/
abbrev K (α : Type) := EStateM Diverge Kernel α

/-- Code on physical memory as kernel code. -/
def onMm {α : Type} (x : M α) : K α :=
  Unit00.Execution.onPart Kernel.mm (fun m k => { k with mm := m }) Diverge.panicked x

@[simp] theorem run_onMm {α : Type} (x : M α) (k : Kernel) :
    (onMm x).run k = match x.run k.mm with
      | .ok a m => .ok a { k with mm := m }
      | .error e m => .error (.panicked e) { k with mm := m } := by
  rw [onMm,Unit00.Execution.run_onPart]
  cases x.run k.mm <;> rfl

theorem onMm_ok {α : Type} {x : M α} {k : Kernel} {a : α} {m : Mm} (run : x.run k.mm = .ok a m) :
    (onMm x).run k = .ok a { k with mm := m } := by
  rw [run_onMm,run]

/-- A computation that may panic as kernel code. -/
def lift {α : Type} : Except Panic α → K α
  | .ok a => pure a
  | .error e => throw (.panicked e)

/-! ### The console

The kernel reaches the registers of the console through the page table of the
running process; here it reaches them directly. A child whose fork ran out of
frames may lack their page, and there the kernel faults without end instead. -/

/-- `console::putchar` -/
def putchar (c : BitVec 8) : K Unit := modify fun k => { k with output := k.output ++ [c] }

/-- `console::puts`: a line feed is sent with a carriage return before it. -/
def puts (s : String) : K Unit :=
  modify fun k => { k with
    output := k.output ++ s.toList.flatMap (fun c => if c = '\n' then [13,10] else [BitVec.ofNat 8 c.toNat]) }

/-- `console::read_char`, which waits for the next byte. -/
def read_char : K (BitVec 8) := do
  let c := (← get).input 0
  modify fun k => { k with input := fun i => k.input (i+1) }
  return c

/-- `print_hex`: sixteen digits, the highest first. -/
def print_hex (val : BitVec 64) : K Unit :=
  forM (List.range' 0 16) fun i => do
    let nibble := val <<< (4*i) >>> 60 &&& 0xF
    putchar (if nibble < 10 then 48+nibble.setWidth 8 else 97+nibble.setWidth 8-10)

end Unit00.Task
