import Unit00.Frame

/-!
Sv39 page tables in physical memory. A `PTEntry` is the 64-bit entry itself, a
pointer to an entry is its physical address, and the callback of
`for_each_leaf` is a program on physical memory.
-/
namespace Unit00.Paging
open Unit00.Memory Unit00.Frame

/-! ### Page table entries -/

abbrev PTEntry := BitVec 64

/-- The flag bits of an entry, in the low bits of a byte. -/
abbrev PTEFlags := BitVec 8

namespace PTEntry

def BIT_V : BitVec 64 := 1 <<< 0
def BIT_R : BitVec 64 := 1 <<< 1
def BIT_W : BitVec 64 := 1 <<< 2
def BIT_X : BitVec 64 := 1 <<< 3
def BIT_U : BitVec 64 := 1 <<< 4
def BIT_COW : BitVec 64 := 1 <<< 62

def is_cow (entry : PTEntry) : Bool := entry &&& BIT_COW != 0
def set_cow (entry : PTEntry) : PTEntry := entry ||| BIT_COW
def clear_cow (entry : PTEntry) : PTEntry := entry &&& ~~~BIT_COW

def is_r (entry : PTEntry) : Bool := entry &&& BIT_R != 0
def is_w (entry : PTEntry) : Bool := entry &&& BIT_W != 0
def is_x (entry : PTEntry) : Bool := entry &&& BIT_X != 0
def is_u (entry : PTEntry) : Bool := entry &&& BIT_U != 0
def is_valid (entry : PTEntry) : Bool := entry &&& BIT_V != 0

def set_w (entry : PTEntry) (w : Bool) : PTEntry := if w then entry ||| BIT_W else entry &&& ~~~BIT_W
def clear_w (entry : PTEntry) : PTEntry := entry &&& ~~~BIT_W

/-- V, R, W, X and U; the COW mark is lost. -/
def flags (entry : PTEntry) : PTEFlags := (entry &&& 0x1F).setWidth 8

def empty : PTEntry := 0

/-- Entry for a table of the next level. -/
def new_table (paddr : Nat) : PTEntry := BitVec.ofNat 64 (paddr >>> 12 <<< 10) ||| BIT_V

/-- Entry for a page. -/
def new_leaf (paddr : Nat) (flags : PTEFlags) : PTEntry :=
  BitVec.ofNat 64 (paddr >>> 12 <<< 10) ||| flags.setWidth 64

def ppn_to_addr (entry : PTEntry) : Nat := (entry >>> 10 &&& 0xFFFFFFFFFFFF).toNat <<< 12

end PTEntry

namespace PTEFlags

def V_BIT : Nat := 0
def R_BIT : Nat := 1
def W_BIT : Nat := 2
def X_BIT : Nat := 3
def U_BIT : Nat := 4

def new (r w x u : Bool) : PTEFlags :=
  let f : BitVec 8 := 1 <<< V_BIT
  let f := if r then f ||| 1#8 <<< R_BIT else f
  let f := if w then f ||| 1#8 <<< W_BIT else f
  let f := if x then f ||| 1#8 <<< X_BIT else f
  if u then f ||| 1#8 <<< U_BIT else f

def is_x (flags : PTEFlags) : Bool := flags &&& 1#8 <<< X_BIT != 0
def is_u (flags : PTEFlags) : Bool := flags &&& 1#8 <<< U_BIT != 0

end PTEFlags

open PTEntry

/-! ### Tables -/

/-- `vpn2` below it is user space, from it on kernel space. -/
def KERNEL_VPN2_MIN : Nat := 2

/-- The root of a page table and where it takes frames for missing levels. -/
structure PageTable where
  root : Nat
  frame_alloc : M (Option Nat)

/-- The address of entry `idx` of a table. -/
def entry_at (table_addr idx : Nat) : Nat := table_addr+8*idx

/-- The index into the table of a level, 0 to 2, for an address. -/
def vpn (vaddr level : Nat) : Nat := vaddr >>> (12+9*level) &&& 0x1FF

namespace PageTable

/-- One of the two upper levels of `walk`: the next table, made when it is missing. -/
def walk_level (pt : PageTable) (table_addr idx : Nat) : M (Option Nat) := do
  let entry := entry_at table_addr idx
  if !is_valid (← read entry) then
    match ← pt.frame_alloc with
    | none => return none
    | some new_page =>
      write_bytes new_page 0 4096
      write entry (new_table new_page)
      return some (ppn_to_addr (← read entry))
  else
    return some (ppn_to_addr (← read entry))

/-- The entry of an address, with the missing levels above it made. -/
def walk (pt : PageTable) (vaddr : Nat) : M (Option Nat) := do
  match ← pt.walk_level pt.root (vpn vaddr 2) with
  | none => return none
  | some l2_addr =>
    match ← pt.walk_level l2_addr (vpn vaddr 1) with
    | none => return none
    | some l1_addr => return some (entry_at l1_addr (vpn vaddr 0))

/-- The entry of an address when the levels above it exist. -/
def lookup (pt : PageTable) (vaddr : Nat) : M (Option Nat) := do
  let entry ← read (entry_at pt.root (vpn vaddr 2))
  if !is_valid entry then return none
  let entry ← read (entry_at (ppn_to_addr entry) (vpn vaddr 1))
  if !is_valid entry then return none
  return some (entry_at (ppn_to_addr entry) (vpn vaddr 0))

/-- Every valid leaf with `vpn2` in a range, in address order, with its entry. -/
def for_each_leaf (pt : PageTable) (vpn2_min vpn2_max : Nat) (callback : Nat → Nat → M Unit) : M Unit :=
  forM (List.range' vpn2_min (vpn2_max-vpn2_min)) fun vpn2 => do
    let root_entry ← read (entry_at pt.root vpn2)
    if is_valid root_entry then
      let l2_addr := ppn_to_addr root_entry
      forM (List.range' 0 512) fun vpn1 => do
        let l2_entry ← read (entry_at l2_addr vpn1)
        if is_valid l2_entry then
          if is_r l2_entry || is_w l2_entry || is_x l2_entry then
            callback (vpn2 <<< 30 ||| vpn1 <<< 21) (entry_at l2_addr vpn1)
          else
            let l1_addr := ppn_to_addr l2_entry
            forM (List.range' 0 512) fun vpn0 => do
              let l1_entry ← read (entry_at l1_addr vpn0)
              if is_valid l1_entry then
                if is_r l1_entry || is_w l1_entry || is_x l1_entry then
                  callback (vpn2 <<< 30 ||| vpn1 <<< 21 ||| vpn0 <<< 12) (entry_at l1_addr vpn0)

def map_leaf (pt : PageTable) (vaddr paddr : Nat) (flags : PTEFlags) (cow : Bool) : M Bool := do
  match ← pt.walk vaddr with
  | some entry =>
    write entry (new_leaf paddr flags)
    if cow then write entry (set_cow (← read entry))
    return true
  | none => return false

def map (pt : PageTable) (vaddr paddr : Nat) (flags : PTEFlags) : M Bool := pt.map_leaf vaddr paddr flags false

def map_cow (pt : PageTable) (vaddr paddr : Nat) (flags : PTEFlags) : M Bool := pt.map_leaf vaddr paddr flags true

/-- Mode Sv39 and the page number of the root. -/
def satp_val (pt : PageTable) : BitVec 64 := 8 <<< 60 ||| BitVec.ofNat 64 (pt.root >>> 12)

end PageTable

/-- The kernel's identity mapping of all of RAM from `start`, in a new table. -/
def init_kernel_loop (pt : PageTable) (flags : PTEFlags) (ram_end pa : Nat) : M Unit := do
  if more : pa < ram_end then
    let _ ← pt.map pa pa flags
    init_kernel_loop pt flags ram_end (pa+4096)
termination_by ram_end-pa
decreasing_by omega

def init_kernel (start : Nat) (frame_alloc : M (Option Nat)) : M (PageTable × BitVec 64) := do
  match ← frame_alloc with
  | none => throw (.panic "no frame for root page table")
  | some root =>
    write_bytes root 0 4096
    let pt : PageTable := { root, frame_alloc }
    let flags := PTEFlags.new true true true false
    -- the end that the caller passes is not read: the mapping covers all of RAM
    let ram_end := start+RAM_SIZE
    init_kernel_loop pt flags ram_end start
    return (pt,pt.satp_val)

end Unit00.Paging
