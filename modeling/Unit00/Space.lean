import Unit00.Scheduler

/-!
Address spaces: the copy-on-write fault, the check of a user range, mapping and
unmapping ranges of user pages, and the table of mmap areas.
-/
namespace Unit00.Space
open Unit00.Memory Unit00.Frame Unit00.Paging Unit00.Paging.PTEntry Unit00.Task Unit00.Scheduler

def EAGAIN : Nat := 11
def EBADF : Nat := 9
def ECHILD : Nat := 10
def EFAULT : Nat := 14
def EINVAL : Nat := 22
def ENOMEM : Nat := 12
def ERANGE : Nat := 34
def ENOSYS : Nat := 38

/-- `(-errno) as usize` -/
def linux_error (errno : Nat) : Nat := 2^64-errno

/-! ### Copy on write -/

/-- Resolve a write to a copy-on-write page: copy a shared frame, make a frame
    of one's own writable in place. -/
def handle_cow_fault (entry : Nat) : M Unit := do
  let ppn := ppn_to_addr (← read entry)
  let refcount ← get_ref ppn
  if refcount > 1 then
    match ← alloc_frame with
    | none => throw (.panic "COW: alloc_frame failed")
    | some new_frame =>
      copy_nonoverlapping ppn new_frame 4096
      let _ ← dec_ref ppn
      let f := flags (← read entry)
      write entry (new_leaf new_frame (PTEFlags.new true true (PTEFlags.is_x f) true))
      write entry (clear_cow (← read entry))
  else
    write entry (set_w (← read entry) true)
    write entry (clear_cow (← read entry))

/-- Whether a page fault on a store meets a page that is copied on write. -/
def cow_pending (entry : PTEntry) : Bool := is_cow entry && is_r entry && !is_w entry

/-- One page of `ensure_user_range`. -/
def ensure_user_page (pt : PageTable) (page : Nat) (write : Bool) : M (Except Nat Unit) := do
  match ← pt.lookup page with
  | none => return .error (linux_error EFAULT)
  | some entry =>
    if !is_u (← read entry) then return .error (linux_error EFAULT)
    if write then
      if cow_pending (← read entry) then handle_cow_fault entry
      if !is_w (← read entry) then return .error (linux_error EFAULT)
      return .ok ()
    else
      if !is_r (← read entry) then return .error (linux_error EFAULT)
      return .ok ()

/-- The pages from `page` to the one of the last byte. -/
def ensure_user_pages (pt : PageTable) (last page : Nat) (write : Bool) : M (Except Nat Unit) := do
  match ← ensure_user_page pt page write with
  | .error e => return .error e
  | .ok () =>
    if done : page ≥ mask_page last then return .ok ()
    else ensure_user_pages pt last (page+4096) write
termination_by mask_page last-page
decreasing_by omega

def ensure_user_range (pt : PageTable) (ptr len : Nat) (write : Bool) : M (Except Nat Unit) := do
  if len = 0 then return .ok ()
  if ptr = 0 then return .error (linux_error EFAULT)
  match checked_add ptr (len-1) with
  | none => return .error (linux_error EFAULT)
  | some last => ensure_user_pages pt last (mask_page ptr) write

/-! ### Rounding -/

/-- `align_up`, whose addition panics when it overflows. -/
def align_up (addr : Nat) : Except Panic Nat :=
  if addr+PAGE_SIZE < 2^64 then .ok (mask_page (addr+PAGE_SIZE-1))
  else .error (.panic "attempt to add with overflow")

def checked_align_up (addr : Nat) : Option Nat := (checked_add addr (PAGE_SIZE-1)).map mask_page

/-! ### Ranges of pages -/

/-- One page of `unmap_user_pages`. -/
def unmap_user_page (pt : PageTable) (vaddr : Nat) : M Unit := do
  match ← pt.lookup vaddr with
  | none => return ()
  | some entry =>
    let e ← read entry
    if is_valid e && is_u e then
      let _ ← dec_ref (ppn_to_addr e)
      write entry empty

def unmap_user_pages (pt : PageTable) (vaddr stop : Nat) : M Unit := do
  if _more : vaddr < stop then
    unmap_user_page pt vaddr
    unmap_user_pages pt (vaddr+4096) stop
termination_by stop-vaddr
decreasing_by omega

/-- Whether an address has a valid leaf. -/
def is_mapped (pt : PageTable) (vaddr : Nat) : M Bool := do
  match ← pt.lookup vaddr with
  | none => return false
  | some entry => return is_valid (← read entry)

/-- Map zeroed frames from `vaddr` to `stop`; on failure every page from `start`
    on is unmapped again. -/
def map_zeroed_from (pt : PageTable) (start stop : Nat) (flags : PTEFlags) (vaddr : Nat) : M Bool := do
  if _more : vaddr < stop then
    if ← is_mapped pt vaddr then
      unmap_user_pages pt start vaddr
      return false
    else
      match ← alloc_frame with
      | none =>
        unmap_user_pages pt start vaddr
        return false
      | some frame =>
        write_bytes frame 0 4096
        if ← pt.map vaddr frame flags then
          map_zeroed_from pt start stop flags (vaddr+4096)
        else
          free_frame frame
          unmap_user_pages pt start vaddr
          return false
  else return true
termination_by stop-vaddr
decreasing_by omega

def map_zeroed_user_pages (pt : PageTable) (start stop : Nat) (flags : PTEFlags) : M Bool :=
  map_zeroed_from pt start stop flags start

/-! ### Mmap areas -/

def PROT_READ : Nat := 1
def PROT_WRITE : Nat := 2
def PROT_EXEC : Nat := 4
def MAP_PRIVATE : Nat := 0x02
def MAP_FIXED : Nat := 0x10
def MAP_ANONYMOUS : Nat := 0x20

/-- `value & bits != 0` -/
def has (value bits : Nat) : Bool := value &&& bits != 0

/-- `value & !allowed != 0` -/
def outside (value allowed : Nat) : Bool := BitVec.ofNat 64 value &&& ~~~(BitVec.ofNat 64 allowed) != 0

def pte_flags_from_prot (prot : Nat) : Option PTEFlags :=
  if outside prot (PROT_READ ||| PROT_WRITE ||| PROT_EXEC) then none
  else if prot = 0 then none
  else
    let writable := has prot PROT_WRITE
    let readable := has prot PROT_READ || writable
    let executable := has prot PROT_EXEC
    some (PTEFlags.new readable writable executable true)

def ranges_overlap (a_start a_end b_start b_end : Nat) : Bool := a_start < b_end && b_start < a_end

def mmap_range_available (areas : Areas) (start stop : Nat) : Bool :=
  (List.finRange MAX_MMAP_AREAS).all fun i =>
    !(areas i).used || !ranges_overlap start stop (areas i).start (areas i).area_end

/-- A used area that overlaps a range. -/
def blocking (areas : Areas) (start stop : Nat) (i : Fin MAX_MMAP_AREAS) : Bool :=
  (areas i).used && ranges_overlap start stop (areas i).start (areas i).area_end

/-- The first area that the scan of a candidate range stops at. -/
def first_blocking (areas : Areas) (start stop : Nat) : Option (Fin MAX_MMAP_AREAS) :=
  (List.finRange MAX_MMAP_AREAS).find? (blocking areas start stop)

theorem align_up_ge {addr next : Nat} (run : align_up addr = .ok next) : addr ≤ next := by
  unfold align_up at run
  split at run
  · have value : mask_page (addr+PAGE_SIZE-1) = next := by simpa using run
    rw [← value]
    simp only [mask_page,PAGE_SIZE]
    omega
  · simp at run

theorem checked_add_some {a b c : Nat} (run : checked_add a b = some c) : a+b = c ∧ c < 2^64 := by
  unfold checked_add at run
  split at run
  · simp only [Option.some.injEq] at run
    omega
  · simp at run

/-- A candidate that an area blocks moves past the end of that area. -/
theorem blocked_moves {areas : Areas} {candidate stop next : Nat} {i : Fin MAX_MMAP_AREAS}
    (found : first_blocking areas candidate stop = some i)
    (moved : align_up (areas i).area_end = .ok next) : candidate < next := by
  have overlap := List.find?_some found
  have beyond := align_up_ge moved
  simp only [blocking,ranges_overlap,Bool.and_eq_true,decide_eq_true_eq] at overlap
  omega

/-- One round of the scan: the answer, or the candidate to go on with. -/
@[irreducible] def gap_step (areas : Areas) (len limit candidate : Nat) : Except Panic (Option Nat ⊕ Nat) :=
  match checked_add candidate len with
  | none => .ok (.inl none)
  | some stop =>
    if stop > limit then .ok (.inl none)
    else
      match first_blocking areas candidate stop with
      | none => .ok (.inl (some candidate))
      | some i =>
        match align_up (areas i).area_end with
        | .error e => .error e
        | .ok next => .ok (.inr next)

theorem gap_step_moves {areas : Areas} {len limit candidate next : Nat}
    (step : gap_step areas len limit candidate = .ok (.inr next)) : candidate < next ∧ candidate ≤ limit := by
  unfold gap_step at step
  cases added : checked_add candidate len with
  | none => simp [added] at step
  | some stop =>
    have sum := (checked_add_some added).1
    simp only [added] at step
    by_cases beyond : stop > limit
    · simp [beyond] at step
    · simp only [beyond,if_false] at step
      cases found : first_blocking areas candidate stop with
      | none => simp [found] at step
      | some i =>
        simp only [found] at step
        cases moved : align_up (areas i).area_end with
        | error e => simp [moved] at step
        | ok after =>
          have same : after = next := by simpa [moved] using step
          have later := blocked_moves found moved
          omega

/-- The scan of `find_mmap_gap` from a candidate on, below a limit. -/
def find_mmap_gap_from (areas : Areas) (len limit candidate : Nat) : Except Panic (Option Nat) :=
  match _step : gap_step areas len limit candidate with
  | .error e => .error e
  | .ok (.inl answer) => .ok answer
  | .ok (.inr next) => find_mmap_gap_from areas len limit next
termination_by limit+1-candidate
decreasing_by
  have later := gap_step_moves _step
  omega

def find_mmap_gap (areas : Areas) (len : Nat) : Except Panic (Option Nat) :=
  find_mmap_gap_from areas len USER_MMAP_LIMIT USER_MMAP_START

def choose_mmap_addr (areas : Areas) (hint len : Nat) : Except Panic (Option Nat) := do
  if hint ≠ 0 then
    let hint ← align_up hint
    if hint ≥ USER_MMAP_START then
      match checked_add hint len with
      | none => return none
      | some stop =>
        if stop ≤ USER_MMAP_LIMIT && mmap_range_available areas hint stop then return some hint
        else find_mmap_gap areas len
    else find_mmap_gap areas len
  else find_mmap_gap areas len

def find_free_mmap_slot (areas : Areas) : Option (Fin MAX_MMAP_AREAS) :=
  (List.finRange MAX_MMAP_AREAS).find? fun i => !(areas i).used

def can_split_mmap_range (areas : Areas) (start stop : Nat) : Bool :=
  let needed := (List.finRange MAX_MMAP_AREAS).countP fun i =>
    blocking areas start stop i && (areas i).start < start && stop < (areas i).area_end
  let free := (List.finRange MAX_MMAP_AREAS).countP fun i => !(areas i).used
  needed ≤ free

/-- One round of `remove_mmap_range`. -/
def remove_mmap_area (start stop : Nat) (areas : Areas) (i : Fin MAX_MMAP_AREAS) : Except Panic Areas :=
  let area := areas i
  if !area.used || !ranges_overlap start stop area.start area.area_end then .ok areas
  else
    let area_end := area.area_end
    if start ≤ area.start && stop ≥ area_end then .ok (Function.update areas i .EMPTY)
    else if start ≤ area.start then
      .ok (Function.update areas i { area with start := stop, len := area_end-stop })
    else if stop ≥ area_end then .ok (Function.update areas i { area with len := start-area.start })
    else
      let tail : MmapArea := { start := stop, len := area_end-stop, prot := area.prot, flags := area.flags, used := true }
      let areas := Function.update areas i { area with len := start-area.start }
      match find_free_mmap_slot areas with
      | none => .error (.panic "munmap split preflight failed")
      | some slot => .ok (Function.update areas slot tail)

def remove_mmap_range (areas : Areas) (start stop : Nat) : Except Panic Areas :=
  (List.finRange MAX_MMAP_AREAS).foldlM (remove_mmap_area start stop) areas

end Unit00.Space
