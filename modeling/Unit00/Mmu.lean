import Unit00.Task

/-!
The hart's view of memory: Sv39 translation of a virtual address through the
tables that `satp` names, in user mode, and in supervisor mode with `SUM` set.
The accessed and dirty bits are the hart's own and not modelled.
-/
namespace Unit00.Mmu
open Unit00.Memory Unit00.Frame Unit00.Paging Unit00.Paging.PTEntry Unit00.Task

inductive Access
  | load
  | store
  | fetch
  deriving DecidableEq

inductive Mode
  | user
  | supervisor
  deriving DecidableEq

/-- Bits 63 to 39 all equal bit 38. -/
def canonical (va : Nat) : Bool := va < 2^38 || (2^64-2^38 ≤ va && va < 2^64)

/-- One of the bits 63 to 54 is set. -/
def reserved (pte : PTEntry) : Bool := pte >>> 54 != 0

/-- The address of the page or table that an entry names: bits 53 to 10. -/
def target (pte : PTEntry) : Nat := (pte >>> 10 &&& 0xFFFFFFFFFFF).toNat*4096

/-- Whether the permission bits of a leaf allow an access. -/
def permits (mode : Mode) (access : Access) (pte : PTEntry) : Bool :=
  (match access with
    | .load => is_r pte
    | .store => is_w pte
    | .fetch => is_x pte) &&
  (match mode with
    | .user => is_u pte
    | .supervisor => true)

/-- The table walk from a level down; `none` is a page fault. -/
def walk_from (strict : Bool) (m : Mem) (mode : Mode) (access : Access) (va : Nat) : Nat → Nat → Option Nat
  | level, table =>
    let pte := load64 m (table+8*vpn va level)
    if !is_valid pte || (!is_r pte && is_w pte) || (strict && reserved pte) then none
    else if is_r pte || is_x pte then
      -- A leaf above level 0 is a superpage; it has to be aligned to its size.
      if permits mode access pte && target pte%(4096*512^level) = 0 then
        some (target pte+va%(4096*512^level))
      else none
    else
      match level with
      | 0 => none
      | level+1 => walk_from strict m mode access va level (target pte)

/-- The root table of `satp`. -/
def root_of (satp : BitVec 64) : Nat := (satp &&& 0xFFFFFFFFFFF).toNat*4096

/-- The physical address of an access; `none` is a page fault. -/
def translate (hart : Hart) (m : Mem) (mode : Mode) (access : Access) (va : Nat) : Option Nat :=
  if canonical va then walk_from hart.reserved_fault m mode access va 2 (root_of hart.satp) else none

/-- A byte of user memory read by the kernel. A fault in supervisor mode goes to
    `kernel_trap_handler`. -/
def user_load (va : Nat) : K (BitVec 8) := do
  let k ← get
  match translate k.hart k.mm.mem .supervisor .load va with
  | some pa => return k.mm.mem pa
  | none => throw (.kernel_trap 13 (BitVec.ofNat 64 va))

/-- A byte of user memory written by the kernel. -/
def user_store (va : Nat) (value : BitVec 8) : K Unit := do
  let k ← get
  match translate k.hart k.mm.mem .supervisor .store va with
  | some pa => set { k with mm := { k.mm with mem := store8 k.mm.mem pa value } }
  | none => throw (.kernel_trap 15 (BitVec.ofNat 64 va))

/-- Consecutive bytes of user memory written by the kernel. -/
def user_write (va : Nat) (bytes : List (BitVec 8)) : K Unit :=
  forM (List.range' 0 bytes.length) fun i => user_store (va+i) (bytes.getD i 0)

end Unit00.Mmu
