import Unit00.Space
import Unit00.Mmu

/-!
The system calls and the trap handler. Arguments and results are `usize`
values; a call that does not return (`exit`, a `wait` that blocks) leaves
through `schedule`.
-/
namespace Unit00.Syscall
open Unit00.Memory Unit00.Frame Unit00.Paging Unit00.Paging.PTEntry Unit00.Task Unit00.Scheduler Unit00.Space
open Unit00.Mmu

def SYS_GETCWD : Nat := 17
def SYS_READ : Nat := 63
def SYS_WRITE : Nat := 64
def SYS_EXIT : Nat := 93
def SYS_EXIT_GROUP : Nat := 94
def SYS_UNAME : Nat := 160
def SYS_MUNMAP : Nat := 215
def SYS_GETPID : Nat := 172
def SYS_GETPPID : Nat := 173
def SYS_GETUID : Nat := 174
def SYS_GETEUID : Nat := 175
def SYS_GETGID : Nat := 176
def SYS_GETEGID : Nat := 177
def SYS_GETTID : Nat := 178
def SYS_BRK : Nat := 214
def SYS_MMAP : Nat := 222
def SYS_FORK : Nat := 220
def SYS_EXEC : Nat := 221
def SYS_WAIT : Nat := 260

def UTS_FIELD_LEN : Nat := 65
def UTS_FIELDS : Nat := 6
def UTS_SIZE : Nat := UTS_FIELD_LEN*UTS_FIELDS

/-- `ensure_user_range` for the running process. -/
def ensure_range (ptr len : Nat) (write : Bool) : K (Except Nat Unit) := do
  let cur ← current
  onMm (ensure_user_range cur.page_table ptr len write)

/-! ### Buffers -/

def sys_read (fd buf len : Nat) : K Nat := do
  if fd ≠ 0 then return linux_error EBADF
  match ← ensure_range buf len true with
  | .error errno => return errno
  | .ok () =>
    forM (List.range' 0 len) fun i => do
      let c ← read_char
      user_store (buf+i) c
    return len

def sys_write (fd buf len : Nat) : K Nat := do
  if fd ≠ 1 ∧ fd ≠ 2 then return linux_error EBADF
  match ← ensure_range buf len false with
  | .error errno => return errno
  | .ok () =>
    forM (List.range' 0 len) fun i => do
      let c ← user_load (buf+i)
      putchar c
    return len

/-- The bytes of an ASCII string. -/
def ascii (s : String) : List (BitVec 8) := s.toList.map fun c => BitVec.ofNat 8 c.toNat

def sys_getcwd (buf size : Nat) : K Nat := do
  let CWD := ascii "/" ++ [0]
  if size < CWD.length then return linux_error ERANGE
  match ← ensure_range buf CWD.length true with
  | .error errno => return errno
  | .ok () =>
    user_write buf CWD
    return CWD.length

def write_uts_field (buf index : Nat) (value : List (BitVec 8)) : K Unit :=
  user_write (buf+index*UTS_FIELD_LEN) (value.take (UTS_FIELD_LEN-1))

def sys_uname (buf : Nat) : K Nat := do
  match ← ensure_range buf UTS_SIZE true with
  | .error errno => return errno
  | .ok () =>
    user_write buf (List.replicate UTS_SIZE 0)
    write_uts_field buf 0 (ascii "Unit00")
    write_uts_field buf 1 (ascii "unit00")
    write_uts_field buf 2 (ascii "0.1.0")
    write_uts_field buf 3 (ascii "oskernel-2026 stage-1")
    write_uts_field buf 4 (ascii "riscv64")
    write_uts_field buf 5 (ascii "localdomain")
    return 0

/-! ### Heap and mappings -/

def grow_heap (old_break new_break : Nat) : K Bool := do
  let start ← lift (align_up old_break)
  let stop ← lift (align_up new_break)
  let cur ← current
  onMm (map_zeroed_user_pages cur.page_table start stop (PTEFlags.new true true false true))

def shrink_heap (new_break old_break : Nat) : K Unit := do
  let start ← lift (align_up new_break)
  let stop ← lift (align_up old_break)
  let cur ← current
  onMm (unmap_user_pages cur.page_table start stop)

def sys_brk (new_break : Nat) : K Nat := do
  let old_break := (← current).heap_end
  let heap_start := (← current).heap_start
  if new_break = 0 then return old_break
  if new_break < heap_start ∨ new_break > USER_HEAP_LIMIT then return old_break
  if new_break > old_break then
    if ← grow_heap old_break new_break then
      update_current fun proc => { proc with heap_end := new_break }
      return new_break
    else return old_break
  else
    if new_break < old_break then shrink_heap new_break old_break
    update_current fun proc => { proc with heap_end := new_break }
    return new_break

/-- The part of `sys_mmap` after its arguments are checked. -/
def mmap_anonymous (addr len prot flags : Nat) (pte_flags : PTEFlags) : K Nat := do
  let cur ← current
  match ← lift (choose_mmap_addr cur.mmap_areas addr len) with
  | none => return linux_error ENOMEM
  | some start =>
    match find_free_mmap_slot cur.mmap_areas with
    | none => return linux_error ENOMEM
    | some slot =>
      if ← onMm (map_zeroed_user_pages cur.page_table start (start+len) pte_flags) then
        update_current fun proc => { proc with
          mmap_areas := Function.update proc.mmap_areas slot { start, len, prot, flags, used := true } }
        return start
      else return linux_error ENOMEM

def sys_mmap (addr len prot flags _fd offset : Nat) : K Nat := do
  match checked_align_up len with
  | none => return linux_error EINVAL
  | some len =>
    if len = 0 then return linux_error EINVAL
    if offset &&& (PAGE_SIZE-1) ≠ 0 then return linux_error EINVAL
    if has flags MAP_FIXED then return linux_error ENOSYS
    if !has flags MAP_ANONYMOUS || !has flags MAP_PRIVATE then return linux_error ENOSYS
    if outside flags (MAP_PRIVATE ||| MAP_FIXED ||| MAP_ANONYMOUS) then return linux_error ENOSYS
    match pte_flags_from_prot prot with
    | none => return linux_error EINVAL
    | some pte_flags => mmap_anonymous addr len prot flags pte_flags

/-- The part of `sys_munmap` after its arguments are checked. -/
def munmap_range (addr stop : Nat) : K Nat := do
  let cur ← current
  if !can_split_mmap_range cur.mmap_areas addr stop then return linux_error ENOMEM
  onMm (unmap_user_pages cur.page_table addr stop)
  let areas ← lift (remove_mmap_range cur.mmap_areas addr stop)
  update_current fun proc => { proc with mmap_areas := areas }
  return 0

def sys_munmap (addr len : Nat) : K Nat := do
  if addr &&& (PAGE_SIZE-1) ≠ 0 then return linux_error EINVAL
  match checked_align_up len with
  | none => return linux_error EINVAL
  | some len =>
    if len = 0 then return linux_error EINVAL
    match checked_add addr len with
    | none => return linux_error EINVAL
    | some stop =>
      if addr < USER_MMAP_START ∨ stop > USER_MMAP_LIMIT then return linux_error EINVAL
      munmap_range addr stop

/-! ### Processes -/

/-- The user leaves of a process lose their frames and entries. -/
def exit_leaf (_vaddr entry : Nat) : M Unit := do
  let e ← read entry
  if PTEFlags.is_u (flags e) then
    let _ ← dec_ref (ppn_to_addr e)
    write entry empty

def sys_exit {α : Type} (code : Nat) : K α := do
  reparent_orphans_to_init
  let cur ← current
  onMm (cur.page_table.for_each_leaf 0 KERNEL_VPN2_MIN exit_leaf)
  update_current fun proc => { proc with state := .Zombie code }
  wake_parent
  schedule

/-- The kernel half of the parent's root table, entry by entry. -/
def copy_kernel_half (parent_root child_root : Nat) : M Unit :=
  forM (List.range' KERNEL_VPN2_MIN (512-KERNEL_VPN2_MIN)) fun vpn2 => do
    let pte ← read (entry_at parent_root vpn2)
    if pte ≠ 0 then write (entry_at child_root vpn2) pte

/-- Share one user page with the child; a writable page becomes copy-on-write in
    both. What `map` returns is not looked at. -/
def fork_user_leaf (child_pt : PageTable) (vaddr entry : Nat) : M Unit := do
  if is_u (← read entry) then
    let pa := ppn_to_addr (← read entry)
    inc_ref pa
    if is_w (← read entry) then
      write entry (clear_w (← read entry))
      write entry (set_cow (← read entry))
    let e ← read entry
    if is_cow e then
      let _ ← child_pt.map_cow vaddr pa (flags e)
    else
      let _ ← child_pt.map vaddr pa (flags e)

/-- Copy one kernel leaf of the user half. -/
def fork_kernel_leaf (child_pt : PageTable) (vaddr entry : Nat) : M Unit := do
  let e ← read entry
  if !is_u e then
    let _ ← child_pt.map vaddr (ppn_to_addr e) (flags e)

/-- The page table and the kernel stack of a child. -/
def fork_memory (parent : PageTable) : M (PageTable × Nat) := do
  match ← alloc_frame with
  | none => throw (.panic "fork: no frame for root page table")
  | some root_frame =>
    write_bytes root_frame 0 4096
    copy_kernel_half parent.root root_frame
    match ← alloc_contiguous_frames KERNEL_STACK_PAGES with
    | none => throw (.panic "fork: no frames for kernel stack")
    | some kernel_stack =>
      write_bytes kernel_stack 0 KERNEL_STACK_SIZE
      let child_pt : PageTable := { root := root_frame, frame_alloc := alloc_frame }
      parent.for_each_leaf 0 KERNEL_VPN2_MIN (fork_user_leaf child_pt)
      parent.for_each_leaf 0 KERNEL_VPN2_MIN (fork_kernel_leaf child_pt)
      return (child_pt,kernel_stack)

/-- The trap frame that a child starts from. -/
def child_frame (tf : TrapFrame) : TrapFrame :=
  let tf := tf.set_a0 0
  { tf with sepc := tf.sepc+4, scause := 8 }

def sys_fork : K Nat := do
  match find_empty_slot (← get).process_list with
  | none => return linux_error EAGAIN
  | some idx =>
    let pid ← alloc_pid
    let cur ← current
    let (child_pt,kernel_stack) ← onMm (fork_memory cur.page_table)
    let child : Process := {
      pid
      parent_pid := cur.pid
      state := .Ready
      page_table := child_pt
      trap_frame := child_frame cur.trap_frame
      kernel_sp := kernel_stack+KERNEL_STACK_SIZE
      kernel_stack_frame := kernel_stack
      heap_start := cur.heap_start
      heap_end := cur.heap_end
      mmap_areas := cur.mmap_areas }
    modify fun k => { k with process_list := Function.update k.process_list idx (some child) }
    return pid

def free_intermediate_frames (root vpn2_min vpn2_max : Nat) : M Unit :=
  forM (List.range' vpn2_min (vpn2_max-vpn2_min)) fun vpn2 => do
    let entry ← read (entry_at root vpn2)
    if is_valid entry then
      let l2_addr := ppn_to_addr entry
      forM (List.range' 0 512) fun vpn1 => do
        let l2_entry ← read (entry_at l2_addr vpn1)
        if is_valid l2_entry then
          if !is_r l2_entry && !is_w l2_entry && !is_x l2_entry then
            free_frame (ppn_to_addr l2_entry)
      free_frame l2_addr

def free_user_pt_resources (child : Process) : M Unit := do
  forM (List.range' 0 KERNEL_STACK_PAGES) fun i => free_frame (child.kernel_stack_frame+i*PAGE_SIZE)
  free_intermediate_frames child.page_table.root 0 KERNEL_VPN2_MIN
  free_frame child.page_table.root

/-- A zombie child of the process with a pid. -/
def zombie_child (t : Table) (cur_pid : Nat) (i : Fin MAX_PROCESSES) : Bool :=
  match t i with
  | none => false
  | some child =>
    child.parent_pid == cur_pid && match child.state with
      | .Zombie _ => true
      | _ => false

/-- A child of the process with a pid that is neither a zombie nor gone. -/
def live_child (t : Table) (cur_pid : Nat) (i : Fin MAX_PROCESSES) : Bool :=
  match t i with
  | none => false
  | some child =>
    child.parent_pid == cur_pid && match child.state with
      | .Zombie _ => false
      | .Gone => false
      | _ => true

/-- The bytes of a word, the lowest first. -/
def word_bytes (value : BitVec 64) : List (BitVec 8) := (List.range 8).map fun i => value.extractLsb' (8*i) 8

/-- The exit code stored through the caller's pointer, after the page of its first byte is
    resolved if that is copied on write. -/
def wait_status (exit_code_ptr code : Nat) : K Unit := do
  if exit_code_ptr ≠ 0 then
    let cur ← current
    match ← onMm (cur.page_table.lookup exit_code_ptr) with
    | none => pure ()
    | some entry =>
      let e ← onMm (read entry)
      if cow_pending e && is_u e then onMm (handle_cow_fault entry)
    user_write exit_code_ptr (word_bytes (BitVec.ofNat 64 code))

/-- The exit code that a zombie left. -/
def exit_code (child : Process) : Nat :=
  match child.state with
  | .Zombie code => code
  | _ => 0

/-- `sys_wait` with the zombie child that it found. -/
def reap (exit_code_ptr : Nat) (idx : Fin MAX_PROCESSES) : K Nat := do
  match (← get).process_list idx with
  | none => throw (.panic "wait: zombie slot disappeared")
  | some child =>
    wait_status exit_code_ptr (exit_code child)
    onMm (free_user_pt_resources child)
    modify fun k => { k with process_list := Function.update k.process_list idx (some { child with state := .Gone }) }
    return child.pid

def sys_wait (exit_code_ptr : Nat) : K Nat := do
  let cur_pid := (← current).pid
  let t := (← get).process_list
  match (List.finRange MAX_PROCESSES).find? (zombie_child t cur_pid) with
  | some idx => reap exit_code_ptr idx
  | none =>
    if (List.finRange MAX_PROCESSES).any (live_child t cur_pid) then
      update_current fun proc => { proc with state := .Blocked }
      schedule
    else return linux_error ECHILD

def sys_exec : K Nat := do
  update_current fun proc => { proc with
    trap_frame := { proc.trap_frame with sepc := 0x10000 }.set_sp 0x3F001000
    heap_end := proc.heap_start
    mmap_areas := fun _ => .EMPTY }
  return 0

def dispatch (syscall_no : Nat) (args : Fin 6 → Nat) : K Nat :=
  if syscall_no = SYS_GETCWD then sys_getcwd (args 0) (args 1)
  else if syscall_no = SYS_READ then sys_read (args 0) (args 1) (args 2)
  else if syscall_no = SYS_WRITE then sys_write (args 0) (args 1) (args 2)
  else if syscall_no = SYS_EXIT ∨ syscall_no = SYS_EXIT_GROUP then sys_exit (args 0)
  else if syscall_no = SYS_UNAME then sys_uname (args 0)
  else if syscall_no = SYS_MUNMAP then sys_munmap (args 0) (args 1)
  else if syscall_no = SYS_GETPID then return (← current).pid
  else if syscall_no = SYS_GETPPID then return (← current).parent_pid
  else if syscall_no = SYS_GETUID ∨ syscall_no = SYS_GETEUID ∨ syscall_no = SYS_GETGID ∨ syscall_no = SYS_GETEGID then
    return 0
  else if syscall_no = SYS_GETTID then return (← current).pid
  else if syscall_no = SYS_BRK then sys_brk (args 0)
  else if syscall_no = SYS_FORK then sys_fork
  else if syscall_no = SYS_EXEC then sys_exec
  else if syscall_no = SYS_MMAP then sys_mmap (args 0) (args 1) (args 2) (args 3) (args 4) (args 5)
  else if syscall_no = SYS_WAIT then sys_wait (args 0)
  else return linux_error ENOSYS

/-! ### Traps -/

def do_segfault {α : Type} (scause stval : BitVec 64) : K α := do
  puts "\n[SEGFAULT] scause=0x"
  print_hex scause
  puts " stval=0x"
  print_hex stval
  puts "\n"
  reparent_orphans_to_init
  update_current fun proc => { proc with state := .Zombie 1 }
  wake_parent
  schedule

/-- The entry of a store fault that is a pending copy on write. -/
def cow_entry (pt : PageTable) (stval : Nat) : M (Option Nat) := do
  match ← pt.lookup stval with
  | none => return none
  | some entry =>
    let e ← read entry
    if cow_pending e && is_u e then return some entry else return none

def page_fault_handler (scause stval : BitVec 64) : K Nat := do
  if scause ≠ 15 then do_segfault scause stval
  let proc ← current
  match ← onMm (cow_entry proc.page_table stval.toNat) with
  | some entry =>
    onMm (handle_cow_fault entry)
    return 0
  | none => do_segfault scause stval

/-- The timer interrupt, which counts and prints a tick. -/
def timer_tick : K Nat := do
  modify fun k => { k with tick_count := k.tick_count+1 }
  puts "tick "
  print_hex (BitVec.ofNat 64 (← get).tick_count)
  puts "\n"
  return 0

theorem arg_lt (i : Fin 6) : 10+i.val < 32 := by omega

/-- The arguments a0 to a5 of a system call. -/
def syscall_args (tf : TrapFrame) (i : Fin 6) : Nat := (tf.regs ⟨10+i.val,arg_lt i⟩).toNat

def trap_handler (scause stval : BitVec 64) : K Nat := do
  let proc ← current
  let tf ← onMm (TrapFrame.read_from_stack (proc.kernel_sp-TrapFrame.SIZE))
  update_current fun proc => { proc with trap_frame := tf }
  if scause >>> 63 = 1 then timer_tick
  else if scause = 8 then dispatch (tf.regs 17).toNat (syscall_args tf)
  else if scause = 12 ∨ scause = 13 ∨ scause = 15 then page_fault_handler scause stval
  else throw (.unexpected_trap scause)

end Unit00.Syscall
