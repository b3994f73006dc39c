import Unit00.Task
import Mathlib.Data.List.FinRange

/-!
The scheduler: a table of 32 slots, one process of which runs until it blocks
or dies. The functions on the table alone are on `Table`; the kernel code
around them reads and writes `PROCESS_LIST` and `CURRENT`.
-/
namespace Unit00.Scheduler
open Unit00.Memory Unit00.Frame Unit00.Paging Unit00.Task

/-! ### The process table -/

/-- The first slot that is empty or holds a process that was reaped. -/
def find_empty_slot (t : Table) : Option (Fin MAX_PROCESSES) :=
  (List.finRange MAX_PROCESSES).find? fun i =>
    match t i with
    | none => true
    | some p => p.state == .Gone

/-- The slots of a table whose process satisfies a condition, rewritten. -/
def mapTable (t : Table) (change : Process → Process) : Table := fun i => (t i).map change

/-- The children of `cur_pid`, the reaped ones apart, become children of init. -/
def adopt (cur_pid : Nat) (proc : Process) : Process :=
  if proc.parent_pid = cur_pid ∧ proc.state ≠ .Gone then { proc with parent_pid := 1 } else proc

/-- A process that `wake_parent` looks for. -/
def waiting (parent_pid : Nat) (t : Table) (i : Fin MAX_PROCESSES) : Bool :=
  match t i with
  | none => false
  | some proc => proc.pid == parent_pid && proc.state == .Blocked

/-- The first blocked process with the pid becomes ready. -/
def wakeTable (t : Table) (parent_pid : Nat) : Table :=
  match (List.finRange MAX_PROCESSES).find? (waiting parent_pid t) with
  | none => t
  | some i => Function.update t i ((t i).map fun proc => { proc with state := .Ready })

/-- Whether a slot holds a ready process. -/
def ready (t : Table) (i : Fin MAX_PROCESSES) : Bool :=
  match t i with
  | none => false
  | some proc => proc.state == .Ready

/-- The next ready slot after `cur`, `cur` itself last; `none` is the sentinel
    `MAX_PROCESSES`. -/
def pick_next (t : Table) (cur : Fin MAX_PROCESSES) : Option (Fin MAX_PROCESSES) :=
  ((List.range' 1 MAX_PROCESSES).map fun i => (⟨(cur.val+i)%MAX_PROCESSES,Nat.mod_lt _ (by decide)⟩ : Fin MAX_PROCESSES)).find?
    (ready t)

/-! ### Kernel code -/

def alloc_pid : K Nat := do
  let pid := (← get).next_pid
  modify fun k => { k with next_pid := pid+1 }
  return pid

/-- The running process. -/
def current : K Process := do
  let k ← get
  match k.process_list k.current with
  | some proc => return proc
  | none => throw (.panic "current(): PROCESS_LIST[CURRENT] is None")

/-- Write through the reference that `current()` returns. -/
def update_current (change : Process → Process) : K Unit := do
  let proc ← current
  modify fun k => { k with process_list := Function.update k.process_list k.current (some (change proc)) }

def reparent_orphans_to_init : K Unit := do
  let cur_pid := (← current).pid
  modify fun k => { k with process_list := mapTable k.process_list (adopt cur_pid) }

def wake_parent : K Unit := do
  let parent_pid := (← current).parent_pid
  modify fun k => { k with process_list := wakeTable k.process_list parent_pid }

/-- Save the running process, pick a ready one and jump to `trap_exit_restore`
    on its stack. Nothing ready shuts the machine down. -/
def schedule {α : Type} : K α := do
  let cur ← current
  let tf ← onMm (TrapFrame.read_from_stack (cur.kernel_sp-TrapFrame.SIZE))
  update_current fun proc => { proc with trap_frame := tf }
  let k ← get
  match pick_next k.process_list k.current with
  | none => throw .shutdown
  | some next_idx =>
    modify fun k => { k with current := next_idx }
    update_current fun proc => { proc with state := .Running }
    let next ← current
    let new_sp := next.kernel_sp-TrapFrame.SIZE
    onMm (next.trap_frame.write_to_stack new_sp)
    modify fun k => { k with hart := { k.hart with satp := next.page_table.satp_val } }
    throw (.restore new_sp)

end Unit00.Scheduler
