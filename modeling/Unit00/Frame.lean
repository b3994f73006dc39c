import Unit00.Memory
import Unit00.Execution
import Mathlib.Logic.Function.Basic

/-!
Physical frames: the bump pointer, the reference counts and the free list that
runs through the first words of the free frames themselves. An address is a
number of bytes from 0; `mem` is the physical memory that the kernel sees
through its identity mapping.
-/
namespace Unit00.Frame
open Unit00.Memory

/-- A Rust panic. -/
inductive Panic
  | panic (message : String)
  deriving Repr, DecidableEq

/-- Physical memory and the statics of the frame allocator. -/
structure Mm where
  mem : Mem
  next_frame : Nat
  frame_refs : Nat → BitVec 32
  free_list_head : BitVec 64

/-- Kernel code that works on physical memory only: it returns or panics. -/
abbrev M (α : Type) := EStateM Panic Mm α

def RAM_BASE : Nat := 0x80000000
def RAM_SIZE : Nat := 128*1024*1024
def PAGE_SIZE : Nat := 4096

/-- `usize::checked_add` -/
def checked_add (a b : Nat) : Option Nat := if a+b < 2^64 then some (a+b) else none

/-- `usize::checked_mul` -/
def checked_mul (a b : Nat) : Option Nat := if a*b < 2^64 then some (a*b) else none

/-- `addr & !0xfff` -/
def mask_page (addr : Nat) : Nat := addr/4096*4096

/-- A word of physical memory, read through a pointer. -/
def read (ptr : Nat) : M (BitVec 64) := do return load64 (← get).mem ptr

/-- A word of physical memory, written through a pointer. -/
def write (ptr : Nat) (value : BitVec 64) : M Unit :=
  modify fun m => { m with mem := store64 m.mem ptr value }

/-- `core::ptr::write_bytes` -/
def write_bytes (dst : Nat) (value : BitVec 8) (count : Nat) : M Unit :=
  modify fun m => { m with mem := fill m.mem dst value count }

/-- `core::ptr::copy_nonoverlapping` on bytes -/
def copy_nonoverlapping (src dst count : Nat) : M Unit :=
  modify fun m => { m with mem := copy m.mem src dst count }

/-! ### What these do -/

@[simp] theorem run_read (ptr : Nat) (m : Mm) : (read ptr).run m = .ok (load64 m.mem ptr) m := rfl

@[simp] theorem run_write (ptr : Nat) (value : BitVec 64) (m : Mm) :
    (write ptr value).run m = .ok ⟨⟩ { m with mem := store64 m.mem ptr value } := rfl

@[simp] theorem run_write_bytes (dst : Nat) (value : BitVec 8) (count : Nat) (m : Mm) :
    (write_bytes dst value count).run m = .ok ⟨⟩ { m with mem := fill m.mem dst value count } := rfl

@[simp] theorem run_copy (src dst count : Nat) (m : Mm) :
    (copy_nonoverlapping src dst count).run m = .ok ⟨⟩ { m with mem := copy m.mem src dst count } := rfl

/-! ### Frames -/

def is_managed (pa : Nat) : Bool := pa ≥ RAM_BASE && pa < RAM_BASE+RAM_SIZE

def frame_index (pa : Nat) : M Nat := do
  if !is_managed pa then throw (.panic "frame_index: physical address out of managed RAM")
  return (pa-RAM_BASE) >>> 12

def set_ref (idx : Nat) (count : BitVec 32) : M Unit :=
  modify fun m => { m with frame_refs := Function.update m.frame_refs idx count }

def inc_ref (pa : Nat) : M Unit := do
  let idx ← frame_index pa
  set_ref idx ((← get).frame_refs idx+1)

def free_frame (pa : Nat) : M Unit := do
  let head := (← get).free_list_head
  write pa head
  modify fun m => { m with free_list_head := BitVec.ofNat 64 pa }
  let idx ← frame_index pa
  set_ref idx 0

def dec_ref (pa : Nat) : M (BitVec 32) := do
  let idx ← frame_index pa
  let prev := (← get).frame_refs idx
  set_ref idx (prev-1)
  if prev = 1 then free_frame pa
  if prev = 0 then throw (.panic "attempt to subtract with overflow")
  return prev-1

def get_ref (pa : Nat) : M (BitVec 32) := do
  let idx ← frame_index pa
  return (← get).frame_refs idx

def frame_init (kernel_end : Nat) : M Unit :=
  modify fun m => { m with next_frame := mask_page (kernel_end+4095) }

def alloc_frame : M (Option Nat) := do
  let head := (← get).free_list_head
  if head ≠ 0 then
    let next ← read head.toNat
    modify fun m => { m with free_list_head := next }
    let pa := head.toNat
    let idx ← frame_index pa
    set_ref idx 1
    return some pa
  else
    let p := (← get).next_frame
    if p ≥ RAM_BASE+RAM_SIZE then
      return none
    else
      modify fun m => { m with next_frame := m.next_frame+4096 }
      let pa := p
      let idx ← frame_index pa
      set_ref idx 1
      return some pa

def alloc_contiguous_frames (pages : Nat) : M (Option Nat) := do
  if pages = 0 then return none
  match checked_mul pages 4096 with
  | none => return none
  | some bytes =>
    let start := (← get).next_frame
    match checked_add start bytes with
    | none => return none
    | some stop =>
      if stop > RAM_BASE+RAM_SIZE then return none
      modify fun m => { m with next_frame := stop }
      forM (List.range' 0 pages) fun i => do
        let pa := start+i*4096
        let idx ← frame_index pa
        set_ref idx 1
      return some start

end Unit00.Frame
