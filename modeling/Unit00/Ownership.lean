import Unit00.Trees
import Mathlib.Data.List.Nodup

/-!
Who holds each physical frame. A `Ledger` gives every frame one owner, its
count, the free list and the trees of all page tables; `Mirror` says that the
machine's memory and the statics of the allocator are what the ledger says.
Each operation on memory is an operation on the ledger, so that what holds of
frames and mappings is proved on ledgers alone.
-/
namespace Unit00.Ownership
open Unit00.Memory Unit00.Execution Unit00.Frame Unit00.Paging Unit00.Paging.PTEntry Unit00.Trees

/-- What a frame is used for. A table of the user half belongs to a root and a place
    in its tree; the tables of the kernel half are shared by all roots. A `temp`
    frame is allocated and not yet in any place. -/
inductive Owner
  | none
  | free
  | temp
  | user
  | root
  | kernel
  | l2 (r v : Nat)
  | l1 (r i : Nat)
  | stack (b : Nat)
  deriving DecidableEq

/-- Part of a page table. -/
def Owner.structural : Owner → Bool
  | .root => true
  | .kernel => true
  | .l2 _ _ => true
  | .l1 _ _ => true
  | _ => false

structure Ledger where
  own : Nat → Owner
  refs : Nat → Nat
  next : Nat
  free : List Nat
  tree : Nat → Tree

/-- The end of the managed RAM. -/
def RAM_END : Nat := RAM_BASE+RAM_SIZE

/-! ### The allocator -/

/-- The statics of the allocator and the free list are what the ledger says. -/
structure Pool (base : Nat) (m : Mm) (g : Ledger) : Prop where
  next : m.next_frame = g.next
  low : RAM_BASE ≤ base
  base_aligned : base%4096 = 0
  next_aligned : g.next%4096 = 0
  order : base ≤ g.next
  high : g.next ≤ RAM_END
  owned : ∀ f, g.own f ≠ .none ↔ f%4096 = 0 ∧ base ≤ f ∧ f < g.next
  chain : Chain m.mem m.free_list_head g.free
  nodup : g.free.Nodup
  free : ∀ f, f ∈ g.free ↔ g.own f = .free
  refs : ∀ f, g.own f ≠ .none → m.frame_refs ((f-RAM_BASE)/4096) = BitVec.ofNat 32 (g.refs f)
  small : ∀ f, g.own f ≠ .none → g.refs f < 2^32
  fresh : ∀ f, f%4096 = 0 → RAM_BASE ≤ f → f < base ∨ g.next ≤ f → f < RAM_END → m.frame_refs ((f-RAM_BASE)/4096) = 0

section
variable {base : Nat} {m : Mm} {g : Ledger}

theorem Pool.managed (pool : Pool base m g) {f : Nat} (held : g.own f ≠ .none) :
    f%4096 = 0 ∧ RAM_BASE ≤ f ∧ f < RAM_END := by
  obtain ⟨aligned,above,below⟩ := (pool.owned f).mp held
  have := pool.low
  have := pool.high
  exact ⟨aligned,by omega,by omega⟩

theorem run_frame_index {f : Nat} (low : RAM_BASE ≤ f) (high : f < RAM_END) (m : Mm) :
    (frame_index f).run m = .ok ((f-RAM_BASE)/4096) m := by
  have inside : is_managed f = true := by simp [is_managed,low]; exact high
  simp only [frame_index,inside]
  rw [Nat.shiftRight_eq_div_pow]
  rfl

theorem run_set_ref (idx : Nat) (count : BitVec 32) (m : Mm) :
    (set_ref idx count).run m = .ok ⟨⟩ { m with frame_refs := Function.update m.frame_refs idx count } := rfl

/-- Different managed frames have different counters. -/
theorem index_injective {f h : Nat} (alignedF : f%4096 = 0) (alignedH : h%4096 = 0) (lowF : RAM_BASE ≤ f)
    (lowH : RAM_BASE ≤ h) (same : (f-RAM_BASE)/4096 = (h-RAM_BASE)/4096) : f = h := by
  simp only [RAM_BASE] at *
  omega

/-- The count of one frame. -/
def Ledger.count (g : Ledger) (f c : Nat) : Ledger := { g with refs := Function.update g.refs f c }

/-- The owner of one frame. -/
def Ledger.give (g : Ledger) (f : Nat) (o : Owner) : Ledger := { g with own := Function.update g.own f o }

@[simp] theorem give_tree (g : Ledger) (f : Nat) (o : Owner) : (g.give f o).tree = g.tree := rfl

@[simp] theorem give_next (g : Ledger) (f : Nat) (o : Owner) : (g.give f o).next = g.next := rfl

@[simp] theorem give_refs (g : Ledger) (f : Nat) (o : Owner) : (g.give f o).refs = g.refs := rfl

/-- A frame taken from the free list, or from the memory never used before. -/
def Ledger.take (g : Ledger) (f : Nat) : Ledger :=
  { g with
    own := Function.update g.own f .temp
    refs := Function.update g.refs f 1
    next := if g.own f = .none then g.next+4096 else g.next
    free := g.free.erase f }

/-- A frame put back on the free list. -/
def Ledger.release (g : Ledger) (f : Nat) : Ledger :=
  { g with own := Function.update g.own f .free, refs := Function.update g.refs f 0, free := f :: g.free }

/-- A change of memory that spares the free frames. -/
theorem Pool.frame (pool : Pool base m g) {S : Nat → Prop} {mem : Mem} (change : Confined S m.mem mem)
    (spared : ∀ p, S p → g.own p ≠ .free) : Pool base { m with mem := mem } g := by
  refine { pool with chain := pool.chain.frame ?_ }
  intro f listed
  have isFree := (pool.free f).mp listed
  have aligned := (pool.managed (f := f) (by rw [isFree]; simp)).1
  exact change.load (o := 0) aligned (by omega) fun inside => spared f inside isFree

/-- A count that changes. -/
theorem Pool.count (pool : Pool base m g) {f c : Nat} (held : g.own f ≠ .none) (bound : c < 2^32) :
    Pool base { m with frame_refs := Function.update m.frame_refs ((f-RAM_BASE)/4096) (BitVec.ofNat 32 c) }
      (g.count f c) := by
  obtain ⟨alignedF,lowF,_⟩ := pool.managed held
  refine { pool with refs := ?_, small := ?_, fresh := ?_ }
  · intro h heldH
    obtain ⟨alignedH,lowH,_⟩ := pool.managed heldH
    by_cases same : h = f
    · subst same
      simp [Ledger.count]
    · have other : (h-RAM_BASE)/4096 ≠ (f-RAM_BASE)/4096 := fun equal =>
        same (index_injective alignedH alignedF lowH lowF equal)
      simp only [Ledger.count,Function.update_of_ne same,Function.update_of_ne other]
      exact pool.refs h heldH
  · intro h heldH
    by_cases same : h = f
    · subst same
      simpa [Ledger.count] using bound
    · simp only [Ledger.count,Function.update_of_ne same]
      exact pool.small h heldH
  · intro h alignedH lowH outside below
    have inside := ((pool.owned f).mp held).2
    have away : h < base ∨ g.next ≤ h := outside
    have other : (h-RAM_BASE)/4096 ≠ (f-RAM_BASE)/4096 := fun equal => by
      have := index_injective alignedH alignedF lowH lowF equal
      omega
    show Function.update m.frame_refs ((f-RAM_BASE)/4096) (BitVec.ofNat 32 c) ((h-RAM_BASE)/4096) = 0
    rw [Function.update_of_ne other]
    exact pool.fresh h alignedH lowH outside below

/-- Frames in use that change their owners. -/
theorem Pool.reown (pool : Pool base m g) {own : Nat → Owner} (none : ∀ x, own x = .none ↔ g.own x = .none)
    (free : ∀ x, own x = .free ↔ g.own x = .free) : Pool base m { g with own := own } := by
  refine { pool with owned := ?_, free := ?_, refs := ?_, small := ?_ }
  · intro f
    rw [← pool.owned f]
    exact (none f).not
  · intro f
    rw [pool.free f]
    exact (free f).symm
  · intro f held
    exact pool.refs f ((none f).not.mp held)
  · intro f held
    exact pool.small f ((none f).not.mp held)

theorem Pool.give (pool : Pool base m g) {f : Nat} {o : Owner} (held : g.own f ≠ .none) (used : g.own f ≠ .free)
    (some_owner : o ≠ .none) (not_free : o ≠ .free) : Pool base m (g.give f o) := by
  refine pool.reown ?_ ?_
  · intro x
    by_cases same : x = f
    · subst same; simp [some_owner,held]
    · simp [Function.update_of_ne same]
  · intro x
    by_cases same : x = f
    · subst same; simp [not_free,used]
    · simp [Function.update_of_ne same]

end

/-- `alloc_frame` hands out a frame that was free or never used, unless all of the
    memory is in use. -/
theorem alloc_frame_spec {base : Nat} {m : Mm} {g : Ledger} (pool : Pool base m g) :
    (g.free = [] ∧ g.next = RAM_END ∧ alloc_frame.run m = .ok none m) ∨
    ∃ f m', alloc_frame.run m = .ok (some f) m' ∧ m'.mem = m.mem ∧ (g.own f = .free ∨ g.own f = .none) ∧
      f%4096 = 0 ∧ base ≤ f ∧ f < RAM_END ∧ Pool base m' (g.take f) := by
  have lowBase := pool.low
  have listNone : ∀ {f : Nat}, g.own f = .none → g.free.erase f = g.free := by
    intro f unowned
    apply List.erase_of_not_mem
    intro listed
    rw [(pool.free f).mp listed] at unowned
    cases unowned
  by_cases empty : m.free_list_head = 0
  · have nothing : g.free = [] := Chain.zero (empty ▸ pool.chain)
    by_cases full : g.next ≥ RAM_END
    · left
      have high := pool.high
      refine ⟨nothing,by omega,?_⟩
      unfold alloc_frame
      rw [run_seq (EStateM.run_get m)]
      dsimp only
      rw [if_neg (by simpa using empty),run_seq (EStateM.run_get m),pool.next,
        if_pos (show g.next ≥ RAM_BASE+RAM_SIZE from full)]
      rfl
    · right
      have unowned : g.own g.next = .none := by
        by_contra held
        have := (pool.owned _).mp held
        omega
      have order := pool.order
      have alignedNext := pool.next_aligned
      refine ⟨g.next,{ m with
        next_frame := g.next+4096, frame_refs := Function.update m.frame_refs ((g.next-RAM_BASE)/4096) 1 },?_,rfl,
        .inr unowned,alignedNext,order,by omega,?_⟩
      · unfold alloc_frame
        rw [run_seq (EStateM.run_get m)]
        dsimp only
        rw [if_neg (by simpa using empty),run_seq (EStateM.run_get m),pool.next,
          if_neg (show ¬ g.next ≥ RAM_BASE+RAM_SIZE from full),run_seq (EStateM.run_modify _ _),
          run_seq (run_frame_index (by omega) (by omega) _),run_seq (run_set_ref _ _ _),EStateM.run_pure,pool.next]
      · have step : (g.take g.next).next = g.next+4096 := by simp [Ledger.take,unowned]
        have high := pool.high
        refine ⟨step.symm,pool.low,pool.base_aligned,?_,?_,?_,?_,?_,?_,?_,?_,?_,?_⟩
        · rw [step]; omega
        · rw [step]; omega
        · rw [step]
          simp only [RAM_END,RAM_BASE,RAM_SIZE] at *
          omega
        · intro f
          rw [step]
          by_cases same : f = g.next
          · subst same
            simp only [Ledger.take,Function.update_self]
            constructor
            · intro _; exact ⟨alignedNext,order,by omega⟩
            · intro _; simp
          · simp only [Ledger.take,Function.update_of_ne same]
            rw [pool.owned f]
            constructor
            · rintro ⟨aligned,above,below⟩; exact ⟨aligned,above,by omega⟩
            · rintro ⟨aligned,above,below⟩; exact ⟨aligned,above,by omega⟩
        · simp only [Ledger.take,listNone unowned]
          exact pool.chain
        · simp only [Ledger.take,listNone unowned]
          exact pool.nodup
        · intro f
          simp only [Ledger.take,listNone unowned]
          by_cases same : f = g.next
          · subst same
            simp [nothing]
          · simp only [Function.update_of_ne same]
            exact pool.free f
        · intro f held
          by_cases same : f = g.next
          · subst same
            simp [Ledger.take]
          · simp only [Ledger.take,Function.update_of_ne same] at held ⊢
            obtain ⟨aligned,lowF,_⟩ := pool.managed held
            have other : (f-RAM_BASE)/4096 ≠ (g.next-RAM_BASE)/4096 := fun equal =>
              same (index_injective aligned alignedNext lowF (by omega) equal)
            simp only [Function.update_of_ne other]
            exact pool.refs f held
        · intro f held
          by_cases same : f = g.next
          · subst same
            simp [Ledger.take]
          · simp only [Ledger.take,Function.update_of_ne same] at held ⊢
            exact pool.small f held
        · intro f aligned lowF outside below
          rw [step] at outside
          have other : (f-RAM_BASE)/4096 ≠ (g.next-RAM_BASE)/4096 := by omega
          show Function.update m.frame_refs ((g.next-RAM_BASE)/4096) 1 ((f-RAM_BASE)/4096) = 0
          rw [Function.update_of_ne other]
          exact pool.fresh f aligned lowF (by omega) below
  · right
    obtain ⟨rest,list,tail⟩ := pool.chain.nonzero empty
    generalize head : m.free_list_head.toNat = f at list tail
    have listed : f ∈ g.free := by simp [list]
    have isFree : g.own f = .free := (pool.free f).mp listed
    have held : g.own f ≠ .none := by rw [isFree]; simp
    obtain ⟨aligned,low,high⟩ := pool.managed held
    have fresh : f ∉ rest := by
      have := pool.nodup
      rw [list] at this
      exact (List.nodup_cons.mp this).1
    refine ⟨f,{ m with
      free_list_head := load64 m.mem f, frame_refs := Function.update m.frame_refs ((f-RAM_BASE)/4096) 1 },?_,rfl,
      .inl isFree,aligned,((pool.owned f).mp held).2.1,high,?_⟩
    · unfold alloc_frame
      rw [run_seq (EStateM.run_get m)]
      dsimp only
      rw [if_pos (by simpa using empty),head,run_seq (run_read _ _),run_seq (EStateM.run_modify _ _),
        run_seq (run_frame_index low high _),run_seq (run_set_ref _ _ _),EStateM.run_pure]
    · have counted := (pool.count held (c := 1) (by decide))
      have erased : (g.take f).free = rest := by simp [Ledger.take,list]
      have same_next : (g.take f).next = g.next := by simp [Ledger.take,held]
      refine ⟨by rw [same_next]; exact pool.next,pool.low,pool.base_aligned,by rw [same_next]; exact pool.next_aligned,
        by rw [same_next]; exact pool.order,by rw [same_next]; exact pool.high,?_,by rw [erased]; exact tail,?_,?_,?_,?_,
        by rw [same_next]; exact counted.fresh⟩
      · intro h
        rw [same_next]
        by_cases same : h = f
        · subst same
          rw [← pool.owned h]
          simp [Ledger.take,held]
        · simp only [Ledger.take,Function.update_of_ne same]
          exact pool.owned h
      · rw [erased]
        have := pool.nodup
        rw [list] at this
        exact (List.nodup_cons.mp this).2
      · intro h
        rw [erased]
        by_cases same : h = f
        · subst same
          simp [Ledger.take,fresh]
        · have := pool.free h
          rw [list] at this
          simp only [List.mem_cons,same,false_or] at this
          simp only [Ledger.take,Function.update_of_ne same]
          exact this
      · intro h heldH
        have heldOld : g.own h ≠ .none := by
          by_cases same : h = f
          · subst same; exact held
          · simpa [Ledger.take,Function.update_of_ne same] using heldH
        exact counted.refs h heldOld
      · intro h heldH
        have heldOld : g.own h ≠ .none := by
          by_cases same : h = f
          · subst same; exact held
          · simpa [Ledger.take,Function.update_of_ne same] using heldH
        exact counted.small h heldOld

theorem frame_index_ok {pa idx : Nat} {m m' : Mm} (run : (frame_index pa).run m = .ok idx m') : m' = m := by
  unfold frame_index at run
  split at run
  · cases run
  · cases run
    rfl

/-- The bump pointer moves when the free list is empty. -/
theorem alloc_frame_next {m m' : Mm} {f : Nat} (run : alloc_frame.run m = .ok (some f) m') :
    m'.next_frame = m.next_frame+(if m.free_list_head = 0 then 4096 else 0) := by
  unfold alloc_frame at run
  rw [run_seq (EStateM.run_get m)] at run
  dsimp only at run
  split at run
  · rename_i listed
    rw [run_seq (run_read _ _),run_seq (EStateM.run_modify _ _)] at run
    obtain ⟨idx,m1,index,rest⟩ := bind_ok run
    rw [run_seq (run_set_ref _ _ _)] at rest
    cases rest
    rw [frame_index_ok index,if_neg listed]
    rfl
  · rename_i empty
    rw [run_seq (EStateM.run_get m)] at run
    split at run
    · cases run
    · rw [run_seq (EStateM.run_modify _ _)] at run
      obtain ⟨idx,m1,index,rest⟩ := bind_ok run
      rw [run_seq (run_set_ref _ _ _)] at rest
      cases rest
      rw [frame_index_ok index,if_pos (by simpa using empty)]

/-- `free_frame` puts a frame in use on the free list and writes its first word. -/
theorem free_frame_spec {base : Nat} {m : Mm} {g : Ledger} (pool : Pool base m g) {f : Nat} (held : g.own f ≠ .none)
    (used : g.own f ≠ .free) :
    ∃ m', (free_frame f).run m = .ok ⟨⟩ m' ∧ m'.mem = store64 m.mem f m.free_list_head ∧ Pool base m' (g.release f) := by
  obtain ⟨aligned,low,high⟩ := pool.managed held
  have absent : f ∉ g.free := fun listed => used ((pool.free f).mp listed)
  refine ⟨{ m with
    mem := store64 m.mem f m.free_list_head, free_list_head := BitVec.ofNat 64 f
    frame_refs := Function.update m.frame_refs ((f-RAM_BASE)/4096) 0 },?_,rfl,?_⟩
  · unfold free_frame
    rw [run_seq (EStateM.run_get m),run_seq (run_write _ _ _),run_seq (EStateM.run_modify _ _),
      run_seq (run_frame_index low high _),run_set_ref]
  · have counted := pool.count held (c := 0) (by decide)
    have change := confined_store64 m.mem (p := f) (o := 0) m.free_list_head aligned (by omega)
    have none : ∀ h, (g.release f).own h ≠ .none ↔ g.own h ≠ .none := by
      intro h
      by_cases same : h = f
      · subst same
        simp [Ledger.release,held]
      · simp [Ledger.release,Function.update_of_ne same]
    refine ⟨pool.next,pool.low,pool.base_aligned,pool.next_aligned,pool.order,pool.high,?_,?_,?_,?_,?_,?_,counted.fresh⟩
    · intro h
      rw [none h]
      exact pool.owned h
    · simp only [Ledger.release]
      refine .cons (by simp only [RAM_END,RAM_BASE,RAM_SIZE] at high; omega) (by simp only [RAM_BASE] at low; omega) ?_
      rw [load64_store64]
      refine pool.chain.frame ?_
      intro h listed
      have isFree := (pool.free h).mp listed
      have alignedH := (pool.managed (f := h) (by rw [isFree]; simp)).1
      refine change.load (o := 0) alignedH (by omega) ?_
      rintro rfl
      exact absent listed
    · exact List.nodup_cons.mpr ⟨absent,pool.nodup⟩
    · intro h
      by_cases same : h = f
      · subst same
        simp [Ledger.release]
      · simp only [Ledger.release,Function.update_of_ne same,List.mem_cons,same,false_or]
        exact pool.free h
    · intro h heldH
      exact counted.refs h ((none h).mp heldH)
    · intro h heldH
      exact counted.small h ((none h).mp heldH)

/-- `inc_ref` on a frame whose count does not overflow. -/
theorem inc_ref_spec {base : Nat} {m : Mm} {g : Ledger} (pool : Pool base m g) {f : Nat} (held : g.own f ≠ .none)
    (room : g.refs f+1 < 2^32) :
    ∃ m', (inc_ref f).run m = .ok ⟨⟩ m' ∧ m'.mem = m.mem ∧ Pool base m' (g.count f (g.refs f+1)) := by
  obtain ⟨_,low,high⟩ := pool.managed held
  refine ⟨{ m with
    frame_refs := Function.update m.frame_refs ((f-RAM_BASE)/4096) (BitVec.ofNat 32 (g.refs f+1)) },?_,rfl,
    pool.count held room⟩
  unfold inc_ref
  rw [run_seq (run_frame_index low high _),run_seq (EStateM.run_get m),run_set_ref,pool.refs f held,BitVec.ofNat_add]
  rfl

theorem get_ref_spec {base : Nat} {m : Mm} {g : Ledger} (pool : Pool base m g) {f : Nat} (held : g.own f ≠ .none) :
    (get_ref f).run m = .ok (BitVec.ofNat 32 (g.refs f)) m := by
  obtain ⟨_,low,high⟩ := pool.managed held
  unfold get_ref
  rw [run_seq (run_frame_index low high _),run_seq (EStateM.run_get m),EStateM.run_pure,pool.refs f held]

/-- What is left of a frame after one of its references was dropped. -/
def Ledger.drop (g : Ledger) (f : Nat) : Ledger := if g.refs f = 1 then g.release f else g.count f (g.refs f-1)

theorem ofNat32_eq {a b : Nat} (ha : a < 2^32) (hb : b < 2^32) : BitVec.ofNat 32 a = BitVec.ofNat 32 b ↔ a = b := by
  constructor
  · intro equal
    have := congrArg BitVec.toNat equal
    rw [BitVec.toNat_ofNat,BitVec.toNat_ofNat,Nat.mod_eq_of_lt ha,Nat.mod_eq_of_lt hb] at this
    exact this
  · rintro rfl
    rfl

/-- `dec_ref` drops a reference; the last one frees the frame. -/
theorem dec_ref_spec {base : Nat} {m : Mm} {g : Ledger} (pool : Pool base m g) {f : Nat} (held : g.own f ≠ .none)
    (used : g.own f ≠ .free) (counted : 1 ≤ g.refs f) :
    ∃ c m', (dec_ref f).run m = .ok c m' ∧ Pool base m' (g.drop f) ∧
      m'.mem = if g.refs f = 1 then store64 m.mem f m.free_list_head else m.mem := by
  obtain ⟨_,low,high⟩ := pool.managed held
  have small := pool.small f held
  have less : BitVec.ofNat 32 (g.refs f)-1 = BitVec.ofNat 32 (g.refs f-1) := by
    have number : (1 : BitVec 32).toNat = 1 := rfl
    apply BitVec.eq_of_toNat_eq
    simp only [BitVec.toNat_sub,BitVec.toNat_ofNat,number]
    omega
  have one : BitVec.ofNat 32 (g.refs f) = 1 ↔ g.refs f = 1 := ofNat32_eq small (by decide)
  have zero : ¬ BitVec.ofNat 32 (g.refs f) = 0 := by
    have := (ofNat32_eq small (show 0 < 2^32 by decide)).not.mpr (by omega)
    exact this
  have lowered := pool.count held (c := g.refs f-1) (by omega)
  unfold dec_ref
  rw [run_seq (run_frame_index low high _),run_seq (EStateM.run_get m)]
  dsimp only
  rw [run_seq (run_set_ref _ _ _),pool.refs f held,less]
  unfold Ledger.drop
  by_cases last : g.refs f = 1
  · obtain ⟨m',run,mem,freed⟩ := free_frame_spec lowered (f := f) held used
    refine ⟨BitVec.ofNat 32 (g.refs f-1),m',?_,?_,?_⟩
    · rw [if_pos (one.mpr last),run_seq run,if_neg zero]
      rfl
    · rw [if_pos last]
      have same : (g.count f (g.refs f-1)).release f = g.release f := by
        simp [Ledger.count,Ledger.release]
      rwa [← same]
    · rw [if_pos last,mem]
  · refine ⟨BitVec.ofNat 32 (g.refs f-1),{ m with
      frame_refs := Function.update m.frame_refs ((f-RAM_BASE)/4096) (BitVec.ofNat 32 (g.refs f-1)) },?_,?_,?_⟩
    · rw [if_neg (fun equal => last (one.mp equal)),if_neg zero]
      rfl
    · rw [if_neg last]
      exact lowered
    · rw [if_neg last]

/-- A run of frames never used before, for a kernel stack. -/
def Ledger.stretch (g : Ledger) (pages : Nat) : Ledger :=
  { g with
    own := fun f => if f%4096 = 0 ∧ g.next ≤ f ∧ f < g.next+pages*4096 then .stack g.next else g.own f
    refs := fun f => if f%4096 = 0 ∧ g.next ≤ f ∧ f < g.next+pages*4096 then 1 else g.refs f
    next := g.next+pages*4096 }

/-- `alloc_contiguous_frames` takes its frames from the memory never used before. -/
theorem alloc_contiguous_spec {base : Nat} {m : Mm} {g : Ledger} (pool : Pool base m g) {pages : Nat} (some_pages : 0 < pages)
    (few : pages ≤ 2^20) :
    (RAM_END < g.next+pages*4096 ∧ (alloc_contiguous_frames pages).run m = .ok none m) ∨
    (g.next+pages*4096 ≤ RAM_END ∧ ∃ m', (alloc_contiguous_frames pages).run m = .ok (some g.next) m' ∧
      m'.mem = m.mem ∧ Pool base m' (g.stretch pages)) := by
  have high := pool.high
  have low : RAM_BASE ≤ g.next := le_trans pool.low pool.order
  have aligned := pool.next_aligned
  have end_value : RAM_END = 0x88000000 := rfl
  have base_value : RAM_BASE = 0x80000000 := rfl
  have bytes : checked_mul pages 4096 = some (pages*4096) := by
    unfold checked_mul
    rw [if_pos (by omega)]
  have stop : checked_add g.next (pages*4096) = some (g.next+pages*4096) := by
    unfold checked_add
    rw [if_pos (by omega)]
  unfold alloc_contiguous_frames
  rw [if_neg (by omega),bytes]
  dsimp only
  rw [run_seq (EStateM.run_get m),pool.next,stop]
  dsimp only
  by_cases fits : g.next+pages*4096 ≤ RAM_END
  · right
    refine ⟨fits,?_⟩
    rw [if_neg (show ¬ g.next+pages*4096 > RAM_BASE+RAM_SIZE from Nat.not_lt.mpr fits),run_seq (EStateM.run_modify _ _)]
    -- After `i` rounds the first `i` counters are 1.
    have loop := forM_range' (ε := Panic) (fun i s => s = { m with
        next_frame := g.next+pages*4096
        frame_refs := fun idx => if (g.next-RAM_BASE)/4096 ≤ idx ∧ idx < (g.next-RAM_BASE)/4096+i then 1 else m.frame_refs idx })
      (fun i => do
        let idx ← frame_index (g.next+i*4096)
        set_ref idx 1) 0 pages { m with next_frame := g.next+pages*4096 } (by
          congr 1
          funext idx
          rw [if_neg (by omega)]) ?_
    · obtain ⟨m',run,equal⟩ := loop
      refine ⟨m',?_,by rw [equal],?_⟩
      · rw [run_seq run]
        rfl
      · rw [equal]
        refine ⟨rfl,pool.low,pool.base_aligned,?_,?_,fits,?_,pool.chain,pool.nodup,?_,?_,?_,?_⟩
        · simp only [Ledger.stretch]; omega
        · have := pool.order
          simp only [Ledger.stretch]; omega
        · intro f
          have old := pool.owned f
          have order := pool.order
          simp only [Ledger.stretch]
          split
          · rename_i inside
            constructor
            · intro _; exact ⟨inside.1,by omega,by omega⟩
            · intro _; simp
          · rename_i outside
            rw [old]
            constructor
            · rintro ⟨a,b,c⟩; exact ⟨a,b,by omega⟩
            · rintro ⟨a,b,c⟩; exact ⟨a,b,by omega⟩
        · intro f
          have old := pool.free f
          simp only [Ledger.stretch]
          split
          · rename_i inside
            rw [old]
            constructor
            · intro isFree
              have := (pool.owned f).mp (by rw [isFree]; simp)
              omega
            · intro impossible; cases impossible
          · exact old
        · intro f held
          simp only [Ledger.stretch] at held ⊢
          by_cases inside : f%4096 = 0 ∧ g.next ≤ f ∧ f < g.next+pages*4096
          · rw [if_pos inside,if_pos (by omega)]
            rfl
          · rw [if_neg inside] at held ⊢
            obtain ⟨alignedF,lowF,_⟩ := pool.managed held
            have below := ((pool.owned f).mp held).2.2
            rw [if_neg (by omega)]
            exact pool.refs f held
        · intro f held
          simp only [Ledger.stretch] at held ⊢
          split
          · decide
          · rename_i outside
            rw [if_neg outside] at held
            exact pool.small f held
        · intro f alignedF lowF outside below
          have order := pool.order
          simp only [Ledger.stretch] at outside ⊢
          rw [if_neg (by omega)]
          exact pool.fresh f alignedF lowF (by omega) below
    · intro i s _ below inv
      subst inv
      refine ⟨_,?_,rfl⟩
      rw [run_seq (run_frame_index (by omega) (by omega) _),run_set_ref]
      congr 2
      funext idx
      have index : (g.next+i*4096-RAM_BASE)/4096 = (g.next-RAM_BASE)/4096+i := by omega
      rw [index]
      by_cases same : idx = (g.next-RAM_BASE)/4096+i
      · subst same
        rw [Function.update_self,if_pos (by omega)]
      · rw [Function.update_of_ne same]
        dsimp only
        by_cases inside : (g.next-RAM_BASE)/4096 ≤ idx ∧ idx < (g.next-RAM_BASE)/4096+i
        · rw [if_pos inside,if_pos (by omega)]
        · rw [if_neg inside,if_neg (by omega)]
  · left
    refine ⟨by omega,?_⟩
    rw [if_pos (show g.next+pages*4096 > RAM_BASE+RAM_SIZE from Nat.not_le.mp fits)]
    rfl

end Unit00.Ownership
