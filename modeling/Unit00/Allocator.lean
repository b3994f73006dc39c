import Unit00.Boot

/-!
The frame allocator by itself. Whatever sequence of operations its clients make,
the list that is threaded through the free frames holds exactly the frames that
were handed out once and are counted by nobody now, and a frame is handed out
only when nobody counts it. The clients must release what they hold and write
to nothing else.
-/
namespace Unit00.Allocator
open Unit00.Memory Unit00.Execution Unit00.Frame Unit00.Trees Unit00.Ownership Unit00.Boot

/-! ### Operations -/

/-- The reference count of a frame. -/
def count (m : Mm) (pa : Nat) : Nat := (m.frame_refs ((pa-RAM_BASE)/4096)).toNat

/-- The address of a page of managed RAM. -/
def IsFrame (pa : Nat) : Prop := pa%4096 = 0 ∧ RAM_BASE ≤ pa ∧ pa < RAM_END

/-- A frame that somebody holds. -/
def Counted (m : Mm) (pa : Nat) : Prop := IsFrame pa ∧ 1 ≤ count m pa

/-- What a client does: it calls the allocator, or writes a byte. -/
inductive Op
  | alloc_frame
  | alloc_contiguous_frames (pages : Nat)
  | inc_ref (pa : Nat)
  | dec_ref (pa : Nat)
  | free_frame (pa : Nat)
  | write (pa : Nat) (value : BitVec 8)

/-- An operation, with the address that the allocator hands out. -/
def Op.run : Op → M (Option Nat)
  | .alloc_frame => Frame.alloc_frame
  | .alloc_contiguous_frames pages => Frame.alloc_contiguous_frames pages
  | .inc_ref pa => do
    Frame.inc_ref pa
    return none
  | .dec_ref pa => do
    let _ ← Frame.dec_ref pa
    return none
  | .free_frame pa => do
    Frame.free_frame pa
    return none
  | .write pa value => do
    modify fun m => { m with mem := store8 m.mem pa value }
    return none

/-- Only frames that are held are counted, released and written to. -/
def Op.Fair (m : Mm) : Op → Prop
  | .alloc_frame => True
  | .alloc_contiguous_frames _ => True
  | .inc_ref pa => Counted m pa ∧ count m pa+1 < 2^32
  | .dec_ref pa => Counted m pa
  | .free_frame pa => Counted m pa
  | .write pa _ => Counted m (mask_page pa)

/-- The states of memory and allocator after any sequence of fair operations. -/
inductive Reached (kernel_end : Nat) : Mm → Prop
  | init {m m' : Mm} (zeroed : m.frame_refs = fun _ => 0) (empty : m.free_list_head = 0)
      (run : (frame_init kernel_end).run m = .ok ⟨⟩ m') : Reached kernel_end m'
  | step {m m' : Mm} {op : Op} {r : Option Nat} (before : Reached kernel_end m) (fair : op.Fair m)
      (run : op.run.run m = .ok r m') : Reached kernel_end m'

/-! ### The ledger of the allocator -/

/-- Free frames, and no others, are counted by nobody. -/
structure Balanced (base : Nat) (m : Mm) (g : Ledger) : Prop where
  pool : Pool base m g
  zero : ∀ f, g.own f ≠ .none → (g.own f = .free ↔ g.refs f = 0)

section
variable {base : Nat} {m m' : Mm} {g : Ledger}

theorem count_held (pool : Pool base m g) {f : Nat} (held : g.own f ≠ .none) : count m f = g.refs f := by
  unfold count
  rw [pool.refs f held,BitVec.toNat_ofNat]
  exact Nat.mod_eq_of_lt (pool.small f held)

theorem count_fresh (pool : Pool base m g) {f : Nat} (frame : IsFrame f) (fresh : g.own f = .none) : count m f = 0 := by
  obtain ⟨aligned,low,high⟩ := frame
  have outside : f < base ∨ g.next ≤ f := by
    by_contra inside
    exact (pool.owned f).mpr ⟨aligned,by omega,by omega⟩ fresh
  unfold count
  rw [pool.fresh f aligned low outside high]
  rfl

theorem Balanced.held (balanced : Balanced base m g) {f : Nat} (counted : Counted m f) :
    g.own f ≠ .none ∧ g.own f ≠ .free ∧ g.refs f = count m f := by
  obtain ⟨frame,some_ref⟩ := counted
  have here : g.own f ≠ .none := by
    intro fresh
    rw [count_fresh balanced.pool frame fresh] at some_ref
    omega
  have same := count_held balanced.pool here
  refine ⟨here,?_,same.symm⟩
  intro free
  rw [same,(balanced.zero f here).mp free] at some_ref
  omega

/-- A frame gets an owner and a count that fit each other; nothing else changes. -/
theorem Balanced.put (balanced : Balanced base m g) {g' : Ledger} (pool : Pool base m' g') {f : Nat}
    (fits : g'.own f = .free ↔ g'.refs f = 0) (others : ∀ x, x ≠ f → g'.own x = g.own x ∧ g'.refs x = g.refs x) :
    Balanced base m' g' := by
  refine ⟨pool,fun x here => ?_⟩
  by_cases same : x = f
  · subst same
    exact fits
  · obtain ⟨owner,refs⟩ := others x same
    rw [owner] at here
    rw [owner,refs]
    exact balanced.zero x here

/-! ### What each operation does -/

theorem take_balanced (balanced : Balanced base m g) {f : Nat} (pool : Pool base m' (g.take f)) :
    Balanced base m' (g.take f) := by
  refine balanced.put (f := f) pool ?_ fun x other => ⟨Function.update_of_ne other _ _,Function.update_of_ne other _ _⟩
  simp [Ledger.take]

theorem release_balanced (balanced : Balanced base m g) {f : Nat} (pool : Pool base m' (g.release f)) :
    Balanced base m' (g.release f) := by
  refine balanced.put (f := f) pool ?_ fun x other => ⟨Function.update_of_ne other _ _,Function.update_of_ne other _ _⟩
  simp [Ledger.release]

theorem count_balanced (balanced : Balanced base m g) {f c : Nat} (used : g.own f ≠ .free) (positive : c ≠ 0)
    (pool : Pool base m' (g.count f c)) : Balanced base m' (g.count f c) := by
  refine balanced.put (f := f) pool ?_ fun x other => ⟨rfl,Function.update_of_ne other _ _⟩
  simp [Ledger.count,used,positive]

theorem stretch_balanced (balanced : Balanced base m g) {pages : Nat} (pool : Pool base m' (g.stretch pages)) :
    Balanced base m' (g.stretch pages) := by
  refine ⟨pool,fun x here => ?_⟩
  unfold Ledger.stretch at here ⊢
  dsimp only at here ⊢
  by_cases inside : x%4096 = 0 ∧ g.next ≤ x ∧ x < g.next+pages*4096
  · rw [if_pos inside,if_pos inside]
    simp
  · rw [if_neg inside] at here
    rw [if_neg inside,if_neg inside]
    exact balanced.zero x here

/-- More frames than RAM has are refused. -/
theorem alloc_contiguous_refused {pages : Nat} (bad : pages = 0 ∨ 2^20 < pages) :
    (Frame.alloc_contiguous_frames pages).run m = .ok none m := by
  unfold Frame.alloc_contiguous_frames
  by_cases zero : pages = 0
  · rw [if_pos zero]
    rfl
  · rw [if_neg zero]
    have many := bad.resolve_left zero
    cases bytes : checked_mul pages 4096 with
    | none => rfl
    | some size =>
      have size_eq : size = pages*4096 := by
        unfold checked_mul at bytes
        split at bytes
        · exact (Option.some.inj bytes).symm
        · cases bytes
      dsimp only
      rw [run_seq (EStateM.run_get _)]
      cases added : checked_add m.next_frame size with
      | none => rfl
      | some stop =>
        have sum := (Unit00.Space.checked_add_some added).1
        have limit : RAM_BASE+RAM_SIZE ≤ 2^32 := by decide
        dsimp only
        rw [if_pos (by omega)]
        rfl

/-- What an operation leaves, and what it hands out. -/
structure Served (base : Nat) (m m' : Mm) (op : Op) (r : Option Nat) : Prop where
  balanced : ∃ g', Balanced base m' g'
  frame : op = .alloc_frame → ∀ f, r = some f → IsFrame f ∧ count m f = 0 ∧ count m' f = 1
  full : op = .alloc_frame → (r = none ↔ m.free_list_head = 0 ∧ m.next_frame = RAM_END)
  frames : ∀ pages, op = .alloc_contiguous_frames pages → ∀ s, r = some s → ∀ i, i < pages →
    IsFrame (s+i*4096) ∧ count m (s+i*4096) = 0 ∧ count m' (s+i*4096) = 1

/-- An operation that hands out nothing. -/
theorem Served.plain {op : Op} (balanced : ∃ g', Balanced base m' g') (single : op ≠ .alloc_frame)
    (several : ∀ pages, op ≠ .alloc_contiguous_frames pages) (r : Option Nat) : Served base m m' op r :=
  ⟨balanced,fun same => absurd same single,fun same => absurd same single,fun pages same => absurd same (several pages)⟩

theorem alloc_frame_served (balanced : Balanced base m g) :
    ∃ r m', Op.alloc_frame.run.run m = .ok r m' ∧ Served base m m' .alloc_frame r := by
  have pool := balanced.pool
  rcases alloc_frame_spec pool with ⟨empty,full,run⟩ | ⟨f,m',run,_,unused,aligned,low,high,after⟩
  · refine ⟨none,m,run,⟨g,balanced⟩,by simp,fun _ => ?_,by simp⟩
    have head : m.free_list_head = 0 := by
      have chain := pool.chain
      rw [empty] at chain
      generalize m.free_list_head = head at chain
      cases chain
      rfl
    simp only [true_iff]
    exact ⟨head,by rw [pool.next]; exact full⟩
  · have place := pool.low
    have frame : IsFrame f := ⟨aligned,by omega,high⟩
    have taken := take_balanced balanced after
    refine ⟨some f,m',run,⟨_,taken⟩,?_,fun _ => ?_,by simp⟩
    · rintro _ _ ⟨⟩
      refine ⟨frame,?_,?_⟩
      · rcases unused with free | fresh
        · have held : g.own f ≠ .none := by rw [free]; simp
          rw [count_held pool held]
          exact (balanced.zero f held).mp free
        · exact count_fresh pool frame fresh
      · rw [count_held taken.pool (by simp [Ledger.take])]
        simp [Ledger.take]
    · simp only [reduceCtorEq,false_iff,not_and]
      intro head
      rcases unused with free | fresh
      · have listed := (pool.free f).mpr free
        have chain := pool.chain
        rw [head] at chain
        rw [chain.zero] at listed
        cases listed
      · intro full
        rw [pool.next] at full
        exact (pool.owned f).mpr ⟨aligned,low,by omega⟩ fresh

theorem alloc_contiguous_served (balanced : Balanced base m g) (pages : Nat) :
    ∃ r m', (Op.alloc_contiguous_frames pages).run.run m = .ok r m' ∧ Served base m m' (.alloc_contiguous_frames pages) r := by
  have pool := balanced.pool
  by_cases bad : pages = 0 ∨ 2^20 < pages
  · exact ⟨none,m,alloc_contiguous_refused bad,⟨g,balanced⟩,by simp,by simp,by simp⟩
  · rcases @alloc_contiguous_spec _ _ _ pool pages (by omega) (by omega) with ⟨_,run⟩ | ⟨fits,m',run,_,after⟩
    · exact ⟨none,m,run,⟨g,balanced⟩,by simp,by simp,by simp⟩
    · have stretched := stretch_balanced balanced after
      refine ⟨some g.next,m',run,⟨_,stretched⟩,by simp,by simp,?_⟩
      rintro _ ⟨⟩ _ ⟨⟩ i inside
      have low := pool.low
      have order := pool.order
      have aligned := pool.next_aligned
      have frame : IsFrame (g.next+i*4096) := ⟨by omega,by omega,by omega⟩
      have place : (g.next+i*4096)%4096 = 0 ∧ g.next ≤ g.next+i*4096 ∧ g.next+i*4096 < g.next+pages*4096 :=
        ⟨by omega,by omega,by omega⟩
      refine ⟨frame,?_,?_⟩
      · refine count_fresh pool frame ?_
        by_contra held
        have := (pool.owned _).mp held
        omega
      · rw [count_held stretched.pool]
        · unfold Ledger.stretch
          dsimp only
          rw [if_pos place]
        · unfold Ledger.stretch
          dsimp only
          rw [if_pos place]
          simp

/-- Every fair operation returns, and leaves an allocator that is balanced. -/
theorem op_served (balanced : Balanced base m g) {op : Op} (fair : op.Fair m) :
    ∃ r m', op.run.run m = .ok r m' ∧ Served base m m' op r := by
  have pool := balanced.pool
  cases op with
  | alloc_frame => exact alloc_frame_served balanced
  | alloc_contiguous_frames pages => exact alloc_contiguous_served balanced pages
  | inc_ref pa =>
    obtain ⟨counted,small⟩ := fair
    obtain ⟨held,used,refs⟩ := balanced.held counted
    obtain ⟨m',run,_,after⟩ := inc_ref_spec pool held (by rw [refs]; exact small)
    refine ⟨none,m',?_,.plain ⟨_,count_balanced balanced used (by omega) after⟩ (by simp) (by simp) _⟩
    unfold Op.run
    dsimp only
    rw [run_seq run]
    rfl
  | dec_ref pa =>
    obtain ⟨held,used,refs⟩ := balanced.held fair
    have positive := fair.2
    obtain ⟨c,m',run,after,_⟩ := dec_ref_spec pool held used (by omega)
    refine ⟨none,m',?_,.plain ⟨g.drop pa,?_⟩ (by simp) (by simp) _⟩
    · unfold Op.run
      dsimp only
      rw [run_seq run]
      rfl
    · unfold Ledger.drop at after ⊢
      by_cases last : g.refs pa = 1
      · rw [if_pos last] at after ⊢
        exact release_balanced balanced after
      · rw [if_neg last] at after ⊢
        exact count_balanced balanced used (by omega) after
  | free_frame pa =>
    obtain ⟨held,used,_⟩ := balanced.held fair
    obtain ⟨m',run,_,after⟩ := free_frame_spec pool held used
    refine ⟨none,m',?_,.plain ⟨_,release_balanced balanced after⟩ (by simp) (by simp) _⟩
    unfold Op.run
    dsimp only
    rw [run_seq run]
    rfl
  | write pa value =>
    obtain ⟨_,used,_⟩ := balanced.held fair
    have after := pool.frame (confined_store8 m.mem pa value) (by rintro p rfl; exact used)
    exact ⟨none,_,rfl,.plain ⟨g,⟨after,balanced.zero⟩⟩ (by simp) (by simp) _⟩

end

/-! ### Every sequence of operations -/

theorem frame_index_lt {pa idx : Nat} {m t : Mm} (run : (frame_index pa).run m = .ok idx t) : idx < 32768 := by
  have limit : RAM_BASE+RAM_SIZE = RAM_BASE+32768*4096 := rfl
  unfold frame_index at run
  cases managed : is_managed pa with
  | false =>
    rw [managed] at run
    cases run
  | true =>
    rw [managed] at run
    have value : (pa-RAM_BASE) >>> 12 = idx := by
      cases run
      rfl
    rw [Nat.shiftRight_eq_div_pow] at value
    simp only [is_managed,Bool.and_eq_true,decide_eq_true_eq] at managed
    omega

/-- The first frame that the allocator hands out. -/
def firstFrame (kernel_end : Nat) : Nat := mask_page (kernel_end+4095)

theorem reached_balanced {kernel_end : Nat} (low : RAM_BASE ≤ kernel_end) (high : kernel_end < RAM_BASE+RAM_SIZE) {m : Mm}
    (reached : Reached kernel_end m) : ∃ g, Balanced (firstFrame kernel_end) m g := by
  induction reached with
  | @init m m' zeroed empty run =>
    have same : m' = { m with next_frame := mask_page (kernel_end+4095) } := by
      cases run
      rfl
    subst same
    have base : RAM_BASE = 0x80000000 := rfl
    have size : RAM_SIZE = 0x8000000 := rfl
    have limit : RAM_END = 0x88000000 := rfl
    have place : RAM_BASE ≤ firstFrame kernel_end ∧ firstFrame kernel_end ≤ RAM_END ∧ firstFrame kernel_end%4096 = 0 := by
      unfold firstFrame mask_page
      omega
    have mirrors := fresh_mirrors (m := { m with next_frame := mask_page (kernel_end+4095) }) place.1 place.2.1 place.2.2 rfl
      empty zeroed
    refine ⟨fresh (firstFrame kernel_end),mirrors.pool,?_⟩
    intro f here
    exact absurd rfl here
  | step before fair run ih =>
    obtain ⟨g,balanced⟩ := ih
    obtain ⟨r,m',run',served⟩ := op_served balanced fair
    rw [run] at run'
    cases run'
    exact served.balanced

/-- The free list is finite and holds exactly the frames that were handed out and are counted by nobody; a frame is
    handed out only while nobody counts it, and refused only when there is none; no operation panics. -/
theorem allocator_correct {kernel_end : Nat} (low : RAM_BASE ≤ kernel_end) (high : kernel_end < RAM_BASE+RAM_SIZE) {m : Mm}
    (reached : Reached kernel_end m) :
    (∃ list, Chain m.mem m.free_list_head list ∧ list.Nodup ∧
      ∀ f, f ∈ list ↔ (f%4096 = 0 ∧ firstFrame kernel_end ≤ f ∧ f < m.next_frame) ∧ count m f = 0) ∧
    RAM_BASE ≤ firstFrame kernel_end ∧ m.next_frame ≤ RAM_BASE+RAM_SIZE ∧
    ∀ op : Op, op.Fair m → ∃ r m', op.run.run m = .ok r m' ∧
      (op = .alloc_frame → (∀ f, r = some f → IsFrame f ∧ count m f = 0 ∧ count m' f = 1) ∧
        (r = none ↔ m.free_list_head = 0 ∧ m.next_frame = RAM_BASE+RAM_SIZE)) ∧
      (∀ pages, op = .alloc_contiguous_frames pages → ∀ s, r = some s → ∀ i, i < pages →
        IsFrame (s+i*4096) ∧ count m (s+i*4096) = 0 ∧ count m' (s+i*4096) = 1) ∧
      ∀ pa idx t, (frame_index pa).run m = .ok idx t → idx < 32768 := by
  obtain ⟨g,balanced⟩ := reached_balanced low high reached
  have pool := balanced.pool
  refine ⟨⟨g.free,pool.chain,pool.nodup,fun f => ?_⟩,pool.low,by rw [pool.next]; exact pool.high,fun op fair => ?_⟩
  · rw [pool.free,pool.next,← pool.owned]
    constructor
    · intro free
      have held : g.own f ≠ .none := by rw [free]; simp
      exact ⟨held,by rw [count_held pool held]; exact (balanced.zero f held).mp free⟩
    · rintro ⟨held,none⟩
      rw [count_held pool held] at none
      exact (balanced.zero f held).mpr none
  · obtain ⟨r,m',run,served⟩ := op_served balanced fair
    exact ⟨r,m',run,fun same => ⟨served.frame same,served.full same⟩,served.frames,fun pa idx t => frame_index_lt⟩

/-! ### A sequence of operations -/

instance (m : Mm) (pa : Nat) : Decidable (Counted m pa) := inferInstanceAs (Decidable ((_ ∧ _ ∧ _) ∧ _))

instance (m : Mm) : (op : Op) → Decidable (op.Fair m)
  | .alloc_frame => .isTrue trivial
  | .alloc_contiguous_frames _ => .isTrue trivial
  | .inc_ref pa => inferInstanceAs (Decidable (Counted m pa ∧ _))
  | .dec_ref pa => inferInstanceAs (Decidable (Counted m pa))
  | .free_frame pa => inferInstanceAs (Decidable (Counted m pa))
  | .write pa _ => inferInstanceAs (Decidable (Counted m (mask_page pa)))

/-- Fair operations one after the other; the states that they lead through. -/
def perform : List Op → Mm → Option Mm
  | [], m => some m
  | op :: rest, m =>
    if op.Fair m then
      match op.run.run m with
      | .ok _ m' => perform rest m'
      | .error _ _ => none
    else none

theorem perform_reached {kernel_end : Nat} {ops : List Op} {m m' : Mm} (reached : Reached kernel_end m)
    (run : perform ops m = some m') : Reached kernel_end m' := by
  induction ops generalizing m with
  | nil =>
    cases run
    exact reached
  | cons op rest ih =>
    unfold perform at run
    split at run
    · next fair =>
      split at run
      · next r after here => exact ih (.step reached fair here) run
      · cases run
    · cases run

/-- A frame is handed out, then two in a row; the first is counted twice and released twice, the last is freed. -/
def clientOps : List Op :=
  [.alloc_frame,.alloc_contiguous_frames 2,.inc_ref 0x80201000,.write 0x80202008 7,.dec_ref 0x80201000,.dec_ref 0x80201000,
    .free_frame 0x80203000]

/-- The sample kernel image ends in the middle of a page. -/
def startMm : Mm := { mem := fun _ => 0, next_frame := 0x80201000, frame_refs := fun _ => 0, free_list_head := 0 }

/-- The frames that were released are free, and the next one is handed out again. -/
theorem allocator_correct_after_release : ∃ m, Reached 0x80200123 m ∧ perform clientOps startMm = some m ∧
    m.next_frame = 0x80204000 ∧ m.free_list_head = 0x80203000 ∧ count m 0x80202000 = 1 ∧
    (∃ list, Chain m.mem m.free_list_head list ∧ list.Nodup ∧
      ∀ f, f ∈ list ↔ (f%4096 = 0 ∧ firstFrame 0x80200123 ≤ f ∧ f < m.next_frame) ∧ count m f = 0) ∧
    ∃ f m', Op.alloc_frame.run.run m = .ok (some f) m' ∧ IsFrame f ∧ count m f = 0 ∧ count m' f = 1 := by
  have start : Reached 0x80200123 startMm :=
    .init (m := { mem := fun _ => 0, next_frame := 0, frame_refs := fun _ => 0, free_list_head := 0 }) rfl rfl rfl
  have statics : (perform clientOps startMm).map (fun m => (m.next_frame,m.free_list_head,count m 0x80202000)) =
      some (0x80204000,0x80203000,1) := by decide +kernel
  obtain ⟨m,run,values⟩ := Option.map_eq_some_iff.mp statics
  simp only [Prod.mk.injEq] at values
  obtain ⟨next,head,one⟩ := values
  have reached := perform_reached start run
  obtain ⟨list,_,_,serves⟩ := allocator_correct (by decide) (by decide) reached
  obtain ⟨r,m',took,frame,_⟩ := serves .alloc_frame trivial
  obtain ⟨handed,full⟩ := frame rfl
  cases r with
  | none =>
    have empty := (full.mp rfl).1
    rw [head] at empty
    cases empty
  | some f => exact ⟨m,reached,run,next,head,one,list,f,m',took,handed f rfl⟩

end Unit00.Allocator
