import Unit00.Lifecycle
import Unit00.Syscall
import Unit00.Trees

/-!
The reference system: every process has its pages for itself. Fork copies all of
them at once, nothing is shared, and there are no frames, page tables or
reference counts. What a system call does to the pages and records of its
caller is a function of them and of whether the machine grants more pages.
-/
namespace Unit00.Eager
open Unit00.Frame Unit00.Task Unit00.Scheduler Unit00.Space Unit00.Syscall Unit00.Lifecycle
open Unit00.Trees (pageOf)

/-! ### Address spaces -/

/-- A user page: what its process may do with it, and its bytes. -/
structure Page where
  readable : Bool
  writable : Bool
  executable : Bool
  bytes : Fin 4096 → BitVec 8

/-- The pages of a process by page number. -/
abbrev Pages := Nat → Option Page

/-- A page of zeros. -/
def Page.zero (readable writable executable : Bool) : Page := ⟨readable,writable,executable,fun _ => 0⟩

/-- No pages from `lo` up to `hi`. -/
def unmap (lo hi : Nat) (s : Pages) : Pages := fun n => if lo ≤ n ∧ n < hi then none else s n

/-- The same page from `lo` up to `hi`. -/
def fillPages (lo hi : Nat) (p : Page) (s : Pages) : Pages := fun n => if lo ≤ n ∧ n < hi then some p else s n

/-- One byte written. -/
def writeByte (va : Nat) (value : BitVec 8) (s : Pages) : Pages := fun n =>
  if n = pageOf va then
    (s n).map fun p => { p with bytes := Function.update p.bytes ⟨va%4096,Nat.mod_lt _ (by decide)⟩ value }
  else s n

/-- The first `len` bytes of `data` written from `va` on. -/
def write (va : Nat) (data : Nat → BitVec 8) : Nat → Pages → Pages
  | 0, s => s
  | len+1, s => writeByte (va+len) (data len) (write va data len s)

/-- The bytes of a list written from `va` on. -/
def writeList (va : Nat) (bytes : List (BitVec 8)) (s : Pages) : Pages := write va (fun i => bytes.getD i 0) bytes.length s

/-- The process may write the pages of a range of addresses. -/
def Writable (s : Pages) (ptr len : Nat) : Prop :=
  ptr ≠ 0 ∧ ptr+(len-1) < 2^64 ∧
    ∀ va, mask_page ptr ≤ va → va ≤ ptr+(len-1) → ∃ p, s (pageOf va) = some p ∧ p.writable = true

/-! ### System calls -/

/-- The pages of a process and the kernel's records of them. -/
structure Image where
  pages : Pages
  heap_start : Nat
  heap_end : Nat
  mmap_areas : Areas

/-- The page number after an address that is rounded up. -/
def pageUp (addr : Nat) : Nat := (addr+4095)/4096

open Classical in
noncomputable def read (fd buf len : Nat) (input : Nat → BitVec 8) (s : Pages) : Pages × (Nat → BitVec 8) :=
  if fd = 0 ∧ (len = 0 ∨ Writable s buf len) then (write buf input len s,fun i => input (i+len)) else (s,input)

open Classical in
noncomputable def getcwd (buf size : Nat) (s : Pages) : Pages :=
  if 2 ≤ size ∧ Writable s buf 2 then writeList buf (ascii "/" ++ [0]) s else s

/-- The texts of `uname` in their fields. -/
def utsFields : List (List (BitVec 8)) :=
  [ascii "Unit00",ascii "unit00",ascii "0.1.0",ascii "oskernel-2026 stage-1",ascii "riscv64",ascii "localdomain"]

open Classical in
noncomputable def uname (buf : Nat) (s : Pages) : Pages :=
  if Writable s buf UTS_SIZE then
    utsFields.zipIdx.foldl (fun s field => writeList (buf+field.2*UTS_FIELD_LEN) field.1 s)
      (writeList buf (List.replicate UTS_SIZE 0) s)
  else s

open Classical in
/-- The heap grows only into pages that are not there yet, and only when they are
    granted. -/
noncomputable def brk (granted : Bool) (new_break : Nat) (a : Image) : Image :=
  if new_break < a.heap_start ∨ new_break > USER_HEAP_LIMIT ∨ new_break = 0 then a
  else if new_break > a.heap_end then
    if granted ∧ ∀ n, pageUp a.heap_end ≤ n → n < pageUp new_break → a.pages n = none then
      { a with
        pages := fillPages (pageUp a.heap_end) (pageUp new_break) (Page.zero true true false) a.pages
        heap_end := new_break }
    else a
  else { a with pages := unmap (pageUp new_break) (pageUp a.heap_end) a.pages, heap_end := new_break }

/-- The page that `mmap` gives for its protection argument. -/
def protPage (prot : Nat) : Page :=
  Page.zero (has prot PROT_READ || has prot PROT_WRITE) (has prot PROT_WRITE) (has prot PROT_EXEC)

/-- The arguments that `mmap` accepts, with the length rounded up. -/
def mmapLength (len prot flags offset : Nat) : Option Nat :=
  (checked_align_up len).filter fun len => len ≠ 0 ∧ offset &&& (PAGE_SIZE-1) = 0 ∧ ¬ has flags MAP_FIXED ∧
    has flags MAP_ANONYMOUS ∧ has flags MAP_PRIVATE ∧ ¬ outside flags (MAP_PRIVATE ||| MAP_FIXED ||| MAP_ANONYMOUS) ∧
    (pte_flags_from_prot prot).isSome

open Classical in
noncomputable def mmap (granted : Bool) (addr len prot flags offset : Nat) (a : Image) : Image :=
  match mmapLength len prot flags offset with
  | none => a
  | some len =>
    match choose_mmap_addr a.mmap_areas addr len,find_free_mmap_slot a.mmap_areas with
    | .ok (some start),some slot =>
      if granted ∧ ∀ n, start/4096 ≤ n → n < (start+len)/4096 → a.pages n = none then
        { a with
          pages := fillPages (start/4096) ((start+len)/4096) (protPage prot) a.pages
          mmap_areas := Function.update a.mmap_areas slot { start, len, prot, flags, used := true } }
      else a
    | _,_ => a

/-- The end of the range that `munmap` accepts. -/
def munmapEnd (addr len : Nat) : Option Nat :=
  if addr &&& (PAGE_SIZE-1) ≠ 0 then none
  else
    (checked_align_up len).bind fun len =>
      if len = 0 then none
      else (checked_add addr len).filter fun stop => USER_MMAP_START ≤ addr ∧ stop ≤ USER_MMAP_LIMIT

def munmap (addr len : Nat) (a : Image) : Image :=
  match munmapEnd addr len with
  | none => a
  | some stop =>
    if can_split_mmap_range a.mmap_areas addr stop then
      match remove_mmap_range a.mmap_areas addr stop with
      | .ok areas => { a with pages := unmap (addr/4096) (stop/4096) a.pages, mmap_areas := areas }
      | .error _ => a
    else a

def exec (a : Image) : Image := { a with heap_end := a.heap_start, mmap_areas := fun _ => .EMPTY }

/-- A system call other than fork, wait and exit. -/
noncomputable def call (granted : Bool) (number : Nat) (args : Fin 6 → Nat) (a : Image) (input : Nat → BitVec 8) :
    Image × (Nat → BitVec 8) :=
  if number = SYS_GETCWD then ({ a with pages := getcwd (args 0) (args 1) a.pages },input)
  else if number = SYS_READ then
    let (pages,input) := read (args 0) (args 1) (args 2) input a.pages
    ({ a with pages },input)
  else if number = SYS_UNAME then ({ a with pages := uname (args 0) a.pages },input)
  else if number = SYS_MUNMAP then (munmap (args 0) (args 1) a,input)
  else if number = SYS_BRK then (brk granted (args 0) a,input)
  else if number = SYS_EXEC then (exec a,input)
  else if number = SYS_MMAP then (mmap granted (args 0) (args 1) (args 2) (args 3) (args 5) a,input)
  else (a,input)

/-! ### The system -/

/-- All processes with their images, and the console bytes to come. -/
structure World where
  procs : System
  image : Fin MAX_PROCESSES → Image
  input : Nat → BitVec 8

/-- What the running process does. -/
inductive Action
  | store (va : Nat) (value : BitVec 8)
  | call (number : Nat) (args : Fin 6 → Nat)
  | killed

/-- The image of the running process, replaced. -/
def World.put (w : World) (a : Image) : World := { w with image := Function.update w.image w.procs.current a }

/-- The pages after an exit code was stored through a pointer that may be null. -/
def deliver (ptr code : Nat) (s : Pages) : Pages :=
  if ptr = 0 then s else writeList ptr (word_bytes (BitVec.ofNat 64 code)) s

/-- One action. Which slot a child takes and which ready process runs next is the
    scheduler's choice. -/
inductive Step : World → Action → World → Prop
  | store {w : World} {va : Nat} {value : BitVec 8} {p : Page} (page : (w.image w.procs.current).pages (pageOf va) = some p)
      (writable : p.writable = true) :
      Step w (.store va value)
        (w.put { w.image w.procs.current with pages := writeByte va value (w.image w.procs.current).pages })
  | call {w : World} {number : Nat} {args : Fin 6 → Nat} (granted : Bool)
      (returns : ¬ (number = SYS_EXIT ∨ number = SYS_EXIT_GROUP)) (not_fork : number ≠ SYS_FORK) (not_wait : number ≠ SYS_WAIT) :
      Step w (.call number args)
        { w.put (call granted number args (w.image w.procs.current) w.input).1 with
          input := (call granted number args (w.image w.procs.current) w.input).2 }
  | fork {w : World} {args : Fin 6 → Nat} {me : Header} {i : Fin MAX_PROCESSES}
      (running : w.procs.slots w.procs.current = some me) (free : ∀ h, w.procs.slots i = some h → h.state = .Gone) :
      Step w (.call SYS_FORK args)
        { w with
          procs := { w.procs with
            slots := Function.update w.procs.slots i (some ⟨w.procs.next_pid,me.pid,.Ready⟩)
            next_pid := w.procs.next_pid+1 }
          image := Function.update w.image i (w.image w.procs.current) }
  | full {w : World} {args : Fin 6 → Nat} (none : ∀ i, ∃ h, w.procs.slots i = some h ∧ h.state ≠ .Gone) :
      Step w (.call SYS_FORK args) w
  | exit {w : World} {number : Nat} {args : Fin 6 → Nat} {after : System}
      (exits : number = SYS_EXIT ∨ number = SYS_EXIT_GROUP) (dies : Lifecycle.Step w.procs (.die (args 0)) after) :
      Step w (.call number args) { w with procs := after }
  | reap {w : World} {args : Fin 6 → Nat} {child code : Nat} {after : System}
      (reaps : Lifecycle.Step w.procs (.reap child code) after) :
      Step w (.call SYS_WAIT args)
        { w.put { w.image w.procs.current with pages := deliver (args 0) code (w.image w.procs.current).pages } with
          procs := after }
  | block {w : World} {args : Fin 6 → Nat} {after : System} (blocks : Lifecycle.Step w.procs .block after) :
      Step w (.call SYS_WAIT args) { w with procs := after }
  | childless {w : World} {args : Fin 6 → Nat} {me : Header} (running : w.procs.slots w.procs.current = some me)
      (none : ∀ i h, w.procs.slots i = some h → h.parent_pid = me.pid → h.state = .Gone) : Step w (.call SYS_WAIT args) w
  | killed {w : World} {after : System} (dies : Lifecycle.Step w.procs (.die 1) after) :
      Step w .killed { w with procs := after }

end Unit00.Eager
