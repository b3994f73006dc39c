import Unit00.Mirror
import Mathlib.Data.Finset.Card
import Mathlib.Data.Set.Basic

/-!
Walks that make the missing tables. `Mirrors` is the whole correspondence of
memory and ledger; a walk takes frames for tables and changes no leaf, and what
it takes is exactly what the table was missing, as long as there is room.
-/
namespace Unit00.Mirror
open Unit00.Memory Unit00.Execution Unit00.Frame Unit00.Paging Unit00.Paging.PTEntry Unit00.Trees Unit00.Ownership

structure Mirrors (base split : Nat) (m : Mm) (g : Ledger) : Prop where
  pool : Pool base m g
  tables : Tables split m.mem g

/-- The number of frames that can still be allocated. -/
def room (g : Ledger) : Nat := g.free.length+(RAM_END-g.next)/4096

/-- The number of indices below a bound that are wanted and have no table. -/
noncomputable def lacking (bound : Nat) (wanted : Nat → Prop) (table : Nat → Option Nat) : Nat :=
  open Classical in ((Finset.range bound).filter fun v => wanted v ∧ table v = none).card

/-- The number of tables that a root is missing for a set of pages. -/
noncomputable def missing (g : Ledger) (r : Nat) (S : Set Nat) : Nat :=
  lacking 512 (fun v => ∃ n ∈ S, n/512/512 = v) (g.tree r).l2+
    lacking (2^18) (fun i => ∃ n ∈ S, n/512 = i) (g.tree r).l1

theorem lacking_fill {bound v : Nat} (f : Nat) (wanted : Nat → Prop) {table : Nat → Option Nat} (low : v < bound) (want : wanted v)
    (absent : table v = none) :
    lacking bound wanted (Function.update table v (some f))+1 = lacking bound wanted table := by
  classical
  have less : ((Finset.range bound).filter fun w => wanted w ∧ Function.update table v (some f) w = none) =
      ((Finset.range bound).filter fun w => wanted w ∧ table w = none).erase v := by
    ext w
    simp only [Finset.mem_filter,Finset.mem_erase,Finset.mem_range]
    by_cases equal : w = v
    · subst equal; simp
    · simp [equal]
  have member : v ∈ (Finset.range bound).filter fun w => wanted w ∧ table w = none := by
    simp only [Finset.mem_filter,Finset.mem_range]
    exact ⟨low,want,absent⟩
  unfold lacking
  rw [less]
  exact Finset.card_erase_add_one member

/-- Frames that a walk may write to. -/
def Spare (g : Ledger) (p : Nat) : Prop :=
  g.own p = .free ∨ g.own p = .none ∨ ((g.own p).structural = true ∧ g.own p ≠ .kernel)

/-- Frames come from the free list first: the bump pointer moves only when the list
    is empty. -/
def Spends (g g' : Ledger) : Prop := g'.free.length ≤ g.free.length ∧ (g'.next = g.next ∨ g'.free = [])

theorem Spends.refl (g : Ledger) : Spends g g := ⟨le_refl _,.inl rfl⟩

theorem Spends.empty {g g' : Ledger} (spends : Spends g g') (empty : g.free = []) : g'.free = [] := by
  have fewer := spends.1
  rw [empty] at fewer
  exact List.eq_nil_of_length_eq_zero (Nat.le_zero.mp fewer)

theorem Spends.trans {a b c : Ledger} (first : Spends a b) (second : Spends b c) : Spends a c := by
  refine ⟨second.1.trans first.1,?_⟩
  rcases second.2 with same | empty
  · rcases first.2 with before | empty
    · exact .inl (same.trans before)
    · exact .inr (second.empty empty)
  · exact .inr empty

/-- The tables of the root `r` grow for the page `n`. -/
structure Grows (r n : Nat) (g g' : Ledger) : Prop where
  own : ∀ x, g'.own x = g.own x ∨
    ((g.own x = .free ∨ g.own x = .none) ∧ ((∃ v, g'.own x = .l2 r v) ∨ ∃ i, g'.own x = .l1 r i) ∧ g'.refs x = 1)
  refs : ∀ x, g'.own x = g.own x → g'.refs x = g.refs x
  next : g.next ≤ g'.next
  leaf : ∀ q, (g'.tree q).leaf = (g.tree q).leaf
  others : ∀ q, q ≠ r → g'.tree q = g.tree q
  l2 : ∀ v a, (g.tree r).l2 v = some a → (g'.tree r).l2 v = some a
  l1 : ∀ i b, (g.tree r).l1 i = some b → (g'.tree r).l1 i = some b
  away : ∀ v, v ≠ n/512/512 → (g'.tree r).l2 v = (g.tree r).l2 v
  paid : ∀ S : Set Nat, n ∈ S → room g'+missing g r S = room g+missing g' r S
  spends : Spends g g'

theorem Grows.refl (r n : Nat) (g : Ledger) : Grows r n g g :=
  ⟨fun _ => .inl rfl,fun _ _ => rfl,le_refl _,fun _ => rfl,fun _ _ => rfl,fun _ _ h => h,fun _ _ h => h,
    fun _ _ => rfl,fun _ _ => rfl,Spends.refl g⟩

theorem Grows.trans {r n : Nat} {a b c : Ledger} (first : Grows r n a b) (second : Grows r n b c) : Grows r n a c := by
  have settled : ∀ {x : Nat}, ((∃ v, b.own x = .l2 r v) ∨ ∃ i, b.own x = .l1 r i) → c.own x = b.own x := by
    intro x table
    rcases second.own x with same | ⟨old,_⟩
    · exact same
    · rcases table with ⟨v,here⟩ | ⟨i,here⟩
      · rw [here] at old; rcases old with h | h <;> cases h
      · rw [here] at old; rcases old with h | h <;> cases h
  refine ⟨?_,?_,first.next.trans second.next,?_,?_,?_,?_,?_,?_,first.spends.trans second.spends⟩
  · intro x
    rcases first.own x with same | ⟨old,new,count⟩
    · rw [← same]
      exact second.own x
    · right
      refine ⟨old,?_,?_⟩
      · rw [settled new]; exact new
      · rw [second.refs x (settled new)]; exact count
  · intro x same
    rcases first.own x with before | ⟨old,new,_⟩
    · rw [second.refs x (same.trans before.symm),first.refs x before]
    · exfalso
      rw [settled new] at same
      rw [← same] at old
      rcases new with ⟨v,here⟩ | ⟨i,here⟩
      · rw [here] at old; rcases old with h | h <;> cases h
      · rw [here] at old; rcases old with h | h <;> cases h
  · intro q
    rw [second.leaf q,first.leaf q]
  · intro q other
    rw [second.others q other,first.others q other]
  · intro v x here
    exact second.l2 v x (first.l2 v x here)
  · intro i x here
    exact second.l1 i x (first.l1 i x here)
  · intro v other
    rw [second.away v other,first.away v other]
  · intro S inside
    have := first.paid S inside
    have := second.paid S inside
    omega

/-- What is spare after a growth was spare before. -/
theorem Grows.spare {r n : Nat} {g g' : Ledger} (grows : Grows r n g g') {p : Nat} (spare : Spare g' p) : Spare g p := by
  rcases grows.own p with same | ⟨old,_⟩
  · unfold Spare at spare ⊢
    rwa [same] at spare
  · rcases old with h | h
    · exact .inl h
    · exact .inr (.inl h)

/-! ### Taking frames -/

section
variable {base split : Nat} {m : Mm} {g : Ledger}

/-- A change of memory outside the free frames and the page tables. -/
theorem Mirrors.frame (mirrors : Mirrors base split m g) {S : Nat → Prop} {mem : Mem} (change : Confined S m.mem mem)
    (spared : ∀ p, S p → g.own p ≠ .free ∧ (g.own p).structural = false) : Mirrors base split { m with mem := mem } g :=
  ⟨mirrors.pool.frame change fun p inside => (spared p inside).1,
    mirrors.tables.frame change fun p inside => (spared p inside).2⟩

theorem room_take {f : Nat} {m' : Mm} (pool : Pool base m g) (after : Pool base m' (g.take f))
    (unused : g.own f = .free ∨ g.own f = .none) : room (g.take f)+1 = room g := by
  have high := after.high
  have alignedNext := pool.next_aligned
  have alignedEnd : RAM_END%4096 = 0 := by decide
  rcases unused with isFree | unowned
  · have listed : f ∈ g.free := (pool.free f).mpr isFree
    have length := List.length_erase_of_mem listed
    have positive := List.length_pos_of_mem listed
    simp only [room,Ledger.take,isFree,length]
    simp only [reduceCtorEq,if_false]
    omega
  · have absent : f ∉ g.free := by
      intro listed
      rw [(pool.free f).mp listed] at unowned
      cases unowned
    simp only [Ledger.take,unowned,if_true] at high
    simp only [room,Ledger.take,unowned,if_true,List.erase_of_not_mem absent]
    omega

theorem spends_take {f : Nat} {m' : Mm} (pool : Pool base m g) (run : alloc_frame.run m = .ok (some f) m')
    (after : Pool base m' (g.take f)) : Spends g (g.take f) := by
  refine ⟨List.length_erase_le,?_⟩
  have moved := alloc_frame_next run
  rw [after.next,pool.next] at moved
  by_cases empty : m.free_list_head = 0
  · right
    have nothing : g.free = [] := Chain.zero (empty ▸ pool.chain)
    simp [Ledger.take,nothing]
  · left
    rwa [if_neg empty,Nat.add_zero] at moved

/-- `alloc_frame` on the whole ledger. -/
theorem Mirrors.alloc (mirrors : Mirrors base split m g) :
    (room g = 0 ∧ alloc_frame.run m = .ok none m) ∨
    ∃ f m', alloc_frame.run m = .ok (some f) m' ∧ m'.mem = m.mem ∧ (g.own f = .free ∨ g.own f = .none) ∧
      f%4096 = 0 ∧ base ≤ f ∧ f < RAM_END ∧ Mirrors base split m' (g.take f) ∧ room (g.take f)+1 = room g := by
  rcases alloc_frame_spec mirrors.pool with ⟨empty,full,run⟩ | ⟨f,m',run,mem,unused,aligned,low,high,pool⟩
  · left
    exact ⟨by simp [room,empty,full],run⟩
  · right
    refine ⟨f,m',run,mem,unused,aligned,low,high,⟨pool,?_⟩,room_take mirrors.pool pool unused⟩
    rw [mem]
    refine mirrors.tables.reown rfl ?_
    intro x part
    by_cases same : x = f
    · subst same
      rcases part with old | new
      · rcases unused with h | h <;> rw [h] at old <;> cases old
      · simp [Ledger.take,Owner.structural] at new
    · simp [Ledger.take,Function.update_of_ne same]

/-- `free_frame` of a frame outside the page tables. -/
theorem Mirrors.release (mirrors : Mirrors base split m g) {f : Nat} (held : g.own f ≠ .none) (used : g.own f ≠ .free)
    (outside : (g.own f).structural = false) :
    ∃ m', (free_frame f).run m = .ok ⟨⟩ m' ∧ m'.mem = store64 m.mem f m.free_list_head ∧
      Mirrors base split m' (g.release f) := by
  obtain ⟨m',run,mem,pool⟩ := free_frame_spec mirrors.pool held used
  refine ⟨m',run,mem,pool,?_⟩
  have aligned := (mirrors.pool.managed held).1
  have change := confined_store64 m.mem (p := f) (o := 0) m.free_list_head aligned (by omega)
  have tables := mirrors.tables.frame change (by rintro p rfl; exact outside)
  rw [mem]
  refine tables.reown rfl ?_
  intro x part
  by_cases same : x = f
  · subst same
    rcases part with old | new
    · rw [outside] at old; cases old
    · simp [Ledger.release,Owner.structural] at new
  · simp [Ledger.release,Function.update_of_ne same]

/-- A frame outside the page tables that changes its owner. -/
theorem Mirrors.give (mirrors : Mirrors base split m g) {f : Nat} {o : Owner} (held : g.own f ≠ .none) (used : g.own f ≠ .free)
    (outside : (g.own f).structural = false) (some_owner : o ≠ .none) (not_free : o ≠ .free) (plain : o.structural = false) :
    Mirrors base split m (g.give f o) := by
  refine ⟨mirrors.pool.give held used some_owner not_free,mirrors.tables.reown rfl ?_⟩
  intro x part
  by_cases same : x = f
  · subst same
    rcases part with old | new
    · rw [outside] at old; cases old
    · simp [Ledger.give,plain] at new
  · simp [Ledger.give,Function.update_of_ne same]

theorem Mirrors.inc (mirrors : Mirrors base split m g) {f : Nat} (held : g.own f ≠ .none) (below : g.refs f+1 < 2^32) :
    ∃ m', (inc_ref f).run m = .ok ⟨⟩ m' ∧ m'.mem = m.mem ∧ Mirrors base split m' (g.count f (g.refs f+1)) := by
  obtain ⟨m',run,mem,pool⟩ := inc_ref_spec mirrors.pool held below
  exact ⟨m',run,mem,pool,by rw [mem]; exact mirrors.tables.reown rfl fun _ _ => rfl⟩

/-- `dec_ref` of a frame outside the page tables; only the first word of a frame that
    becomes free changes. -/
theorem Mirrors.dec (mirrors : Mirrors base split m g) {f : Nat} (held : g.own f ≠ .none) (used : g.own f ≠ .free)
    (outside : (g.own f).structural = false) (counted : 1 ≤ g.refs f) :
    ∃ c m', (dec_ref f).run m = .ok c m' ∧ Mirrors base split m' (g.drop f) ∧
      Confined (fun p => p = f ∧ g.refs f = 1) m.mem m'.mem := by
  obtain ⟨c,m',run,pool,mem⟩ := dec_ref_spec mirrors.pool held used counted
  have aligned := (mirrors.pool.managed held).1
  have change : Confined (fun p => p = f ∧ g.refs f = 1) m.mem m'.mem := by
    rw [mem]
    split
    · rename_i last
      exact (confined_store64 m.mem (p := f) (o := 0) m.free_list_head aligned (by omega)).mono fun p same => ⟨same,last⟩
    · exact Confined.refl _ _
  refine ⟨c,m',run,⟨pool,?_⟩,change⟩
  have tables := mirrors.tables.frame change (by rintro p ⟨rfl,_⟩; exact outside)
  refine tables.reown (by unfold Ledger.drop; split <;> rfl) ?_
  intro x part
  unfold Ledger.drop at part ⊢
  split
  · rename_i last
    rw [if_pos last] at part
    by_cases same : x = f
    · subst same
      rcases part with old | new
      · rw [outside] at old; cases old
      · simp [Ledger.release,Owner.structural] at new
    · simp [Ledger.release,Function.update_of_ne same]
  · rfl

end

/-! ### Making tables -/

theorem missing_congr {g g' : Ledger} {c : Nat} {S : Set Nat} (l2 : (g'.tree c).l2 = (g.tree c).l2)
    (l1 : (g'.tree c).l1 = (g.tree c).l1) : missing g' c S = missing g c S := by
  rw [missing,missing,l2,l1]

theorem missing_attach2 {g : Ledger} {r v f n : Nat} {S : Set Nat} (inside : n ∈ S) (place : n/512/512 = v) (low : v < 512)
    (absent : (g.tree r).l2 v = none) : missing (attach2 g r v f) r S+1 = missing g r S := by
  have less := lacking_fill f (fun v => ∃ n ∈ S, n/512/512 = v) low ⟨n,inside,place⟩ absent
  simp only [missing,attach2,Function.update_self]
  omega

theorem missing_attach1 {g : Ledger} {r i f n : Nat} {S : Set Nat} (inside : n ∈ S) (place : n/512 = i) (low : i < 2^18)
    (absent : (g.tree r).l1 i = none) : missing (attach1 g r i f) r S+1 = missing g r S := by
  have less := lacking_fill f (fun i => ∃ n ∈ S, n/512 = i) low ⟨n,inside,place⟩ absent
  simp only [missing,attach1,Function.update_self]
  omega

/-- The memory of a new table: zeroed, and named by one entry. -/
theorem confined_make {g : Ledger} {mem : Mem} {f p o : Nat} (e : BitVec 64) (unused : g.own f = .free ∨ g.own f = .none)
    (frame : f%4096 = 0) (aligned : p%4096 = 0) (inside : o+8 ≤ 4096) (part : (g.own p).structural = true)
    (own_half : g.own p ≠ .kernel) :
    Confined (Spare g) mem (store64 (fill mem f 0 4096) (p+o) e) := by
  refine Confined.trans ((confined_fill mem 0 frame).mono ?_) ((confined_store64 _ e aligned inside).mono ?_)
  · rintro x rfl
    rcases unused with h | h
    · exact .inl h
    · exact .inr (.inl h)
  · rintro x rfl
    exact .inr (.inr ⟨part,own_half⟩)

theorem grows_attach2 {base split : Nat} {m m' : Mm} {g : Ledger} {r v f n : Nat} (mirrors : Mirrors base split m g)
    (run : alloc_frame.run m = .ok (some f) m') (after : Mirrors base split m' (g.take f)) (unused : g.own f = .free ∨ g.own f = .none) (place : n/512/512 = v)
    (low : v < 512) (absent : (g.tree r).l2 v = none) : Grows r n g (attach2 (g.take f) r v f) := by
  refine ⟨?_,?_,?_,?_,?_,?_,?_,?_,?_,spends_take mirrors.pool run after.pool⟩
  · intro x
    by_cases same : x = f
    · subst same
      right
      exact ⟨unused,.inl ⟨v,by simp [attach2]⟩,by simp [attach2,Ledger.take]⟩
    · left
      simp [attach2,Ledger.take,Function.update_of_ne same]
  · intro x kept
    by_cases same : x = f
    · subst same
      simp only [attach2,Function.update_self] at kept
      rw [← kept] at unused
      rcases unused with h | h <;> cases h
    · simp [attach2,Ledger.take,Function.update_of_ne same]
  · simp only [attach2,Ledger.take]
    split <;> omega
  · intro q
    by_cases same : q = r
    · subst same; simp [attach2,Ledger.take]
    · simp [attach2,Ledger.take,Function.update_of_ne same]
  · intro q other
    simp [attach2,Ledger.take,Function.update_of_ne other]
  · intro w a here
    by_cases same : w = v
    · subst same
      rw [absent] at here
      cases here
    · simpa [attach2,Ledger.take,Function.update_of_ne same] using here
  · intro i b here
    simpa [attach2,Ledger.take] using here
  · intro w other
    rw [place] at other
    simp [attach2,Ledger.take,Function.update_of_ne other]
  · intro S inside
    have fewer := missing_attach2 (g := g.take f) (f := f) inside place low absent
    have spent := room_take mirrors.pool after.pool unused
    have same : missing (g.take f) r S = missing g r S := rfl
    have same' : room (attach2 (g.take f) r v f) = room (g.take f) := rfl
    omega

theorem grows_attach1 {base split : Nat} {m m' : Mm} {g : Ledger} {r i f n : Nat} (mirrors : Mirrors base split m g)
    (run : alloc_frame.run m = .ok (some f) m') (after : Mirrors base split m' (g.take f)) (unused : g.own f = .free ∨ g.own f = .none) (place : n/512 = i)
    (low : i < 2^18) (absent : (g.tree r).l1 i = none) : Grows r n g (attach1 (g.take f) r i f) := by
  refine ⟨?_,?_,?_,?_,?_,?_,?_,?_,?_,spends_take mirrors.pool run after.pool⟩
  · intro x
    by_cases same : x = f
    · subst same
      right
      exact ⟨unused,.inr ⟨i,by simp [attach1]⟩,by simp [attach1,Ledger.take]⟩
    · left
      simp [attach1,Ledger.take,Function.update_of_ne same]
  · intro x kept
    by_cases same : x = f
    · subst same
      simp only [attach1,Function.update_self] at kept
      rw [← kept] at unused
      rcases unused with h | h <;> cases h
    · simp [attach1,Ledger.take,Function.update_of_ne same]
  · simp only [attach1,Ledger.take]
    split <;> omega
  · intro q
    by_cases same : q = r
    · subst same; simp [attach1,Ledger.take]
    · simp [attach1,Ledger.take,Function.update_of_ne same]
  · intro q other
    simp [attach1,Ledger.take,Function.update_of_ne other]
  · intro w a here
    simpa [attach1,Ledger.take] using here
  · intro j b here
    by_cases same : j = i
    · subst same
      rw [absent] at here
      cases here
    · simpa [attach1,Ledger.take,Function.update_of_ne same] using here
  · intro w _
    simp [attach1,Ledger.take]
  · intro S inside
    have fewer := missing_attach1 (g := g.take f) (f := f) inside place low absent
    have spent := room_take mirrors.pool after.pool unused
    have same : missing (g.take f) r S = missing g r S := rfl
    have same' : room (attach1 (g.take f) r i f) = room (g.take f) := rfl
    omega

/-- What a level of a walk for the page `n` of the root `r` leaves behind. -/
structure Walked (base split r n : Nat) (m m' : Mm) (g g' : Ledger) : Prop where
  mirrors : Mirrors base split m' g'
  grows : Grows r n g g'
  change : Confined (Spare g) m.mem m'.mem
  floor : ∀ a, a < base → m'.mem a = m.mem a

theorem Walked.refl {base split r n : Nat} {m : Mm} {g : Ledger} (mirrors : Mirrors base split m g) :
    Walked base split r n m m g g := ⟨mirrors,Grows.refl r n g,Confined.refl _ _,fun _ _ => rfl⟩

theorem Walked.trans {base split r n : Nat} {a b c : Mm} {x y z : Ledger} (first : Walked base split r n a b x y)
    (second : Walked base split r n b c y z) : Walked base split r n a c x z :=
  ⟨second.mirrors,first.grows.trans second.grows,
    first.change.trans (second.change.mono fun _ spare => first.grows.spare spare),
    fun a below => (second.floor a below).trans (first.floor a below)⟩

/-- A table that is made and entered leaves the memory below the pool as it is. -/
theorem make_below {mem : Mem} {base f x a : Nat} (e : BitVec 64) (frame : base ≤ f) (slot : base ≤ x) (below : a < base) :
    store64 (fill mem f 0 4096) x e a = mem a := by
  rw [store64_off (.inl (by omega)),fill_off (.inl (by omega))]

section
variable {base split : Nat} {m : Mm} {g : Ledger} {r n : Nat} (pt : PageTable)

/-- The upper level of a walk: the table is there, is made, or there is no room. -/
theorem Mirrors.level2 (mirrors : Mirrors base split m g) (from_pool : pt.frame_alloc = alloc_frame)
    (isRoot : g.own r = .root) (inside : n < 2^27) (mine : n < split*2^18) :
    ∃ res m' g', (pt.walk_level r (n/512/512)).run m = .ok res m' ∧ Walked base split r n m m' g g' ∧
      match res with
      | none => room g' = 0 ∧ (g'.tree r).l2 (n/512/512) = none
      | some a => (g'.tree r).l2 (n/512/512) = some a := by
  have low : n/512/512 < 512 := by omega
  have top := (mirrors.tables.tree r isRoot).top _ low
  cases present : (g.tree r).l2 (n/512/512) with
  | some a =>
    rw [present] at top
    exact ⟨some a,m,g,walk_level_found pt top,Walked.refl mirrors,present⟩
  | none =>
    rw [present] at top
    simp only [Slot] at top
    rcases mirrors.alloc with ⟨full,run⟩ | ⟨f,m',run,mem,unused,aligned,above,high,after,_⟩
    · exact ⟨none,m,g,walk_level_full pt top.1 (by rw [from_pool]; exact run),Walked.refl mirrors,full,present⟩
    · have bound : f < 2^56 := by
        have : RAM_END = 0x88000000 := rfl
        omega
      have alignedR := mirrors.tables.aligned r isRoot
      have fresh : r ≠ f := by
        rintro rfl
        rw [isRoot] at unused
        rcases unused with h | h <;> cases h
      have tempF : ((g.take f).own f).structural = false := by simp [Ledger.take,Owner.structural]
      have rootR : (g.take f).own r = .root := by simpa [Ledger.take,Function.update_of_ne fresh] using isRoot
      have zeroed := after.frame (confined_fill m'.mem (p := f) 0 aligned) (by
        rintro p rfl
        exact ⟨by simp [Ledger.take],tempF⟩)
      have attached := zeroed.tables.attach_l2 rootR low (by omega) present tempF aligned bound (by
        intro j below
        unfold entry_at
        exact load64_fill_zero (by omega) (by omega))
      refine ⟨some f,_,attach2 (g.take f) r (n/512/512) f,
        walk_level_made pt top.1 (by rw [from_pool]; exact run) aligned bound,⟨⟨?_,attached⟩,
          grows_attach2 mirrors run after unused rfl low present,?_,fun a below => ?_⟩,by simp [attach2]⟩
      · have pool := zeroed.pool.give (f := f) (o := .l2 r (n/512/512)) (by simp [Ledger.take]) (by simp [Ledger.take])
          (by simp) (by simp)
        have change := confined_store64 (fill m'.mem f 0 4096) (p := r) (o := 8*(n/512/512)) (new_table f) alignedR (by omega)
        have stored := pool.frame change (by
          rintro p rfl
          simp [Ledger.give,Function.update_of_ne fresh,rootR])
        exact { stored with }
      · rw [← mem]
        exact confined_make (new_table f) unused aligned alignedR (by omega) (by rw [isRoot]; rfl) (by rw [isRoot]; simp)
      · have place := (mirrors.pool.owned r).mp (by rw [isRoot]; simp)
        rw [← mem]
        exact make_below (new_table f) above (by unfold entry_at; omega) below

/-- The lower level of a walk, when the table above is there. -/
theorem Mirrors.level1 (mirrors : Mirrors base split m g) (from_pool : pt.frame_alloc = alloc_frame)
    (isRoot : g.own r = .root) (inside : n < 2^27) (mine : n < split*2^18) {a : Nat}
    (parent : (g.tree r).l2 (n/512/512) = some a) :
    ∃ res m' g', (pt.walk_level a (n/512%512)).run m = .ok res m' ∧ Walked base split r n m m' g g' ∧
      match res with
      | none => room g' = 0 ∧ (g'.tree r).l1 (n/512) = none
      | some b => (g'.tree r).l1 (n/512) = some b := by
  have low : n/512 < 2^18 := by omega
  have mid := (mirrors.tables.tree r isRoot).mid _ a low parent
  have owner : g.own a = .l2 r (n/512/512) := by
    rw [mirrors.tables.l2 r _ a isRoot (by omega) parent,home2,if_pos (by omega)]
  cases present : (g.tree r).l1 (n/512) with
  | some b =>
    rw [present] at mid
    exact ⟨some b,m,g,walk_level_found pt mid,Walked.refl mirrors,present⟩
  | none =>
    rw [present] at mid
    simp only [Slot] at mid
    rcases mirrors.alloc with ⟨full,run⟩ | ⟨f,m',run,mem,unused,aligned,above,high,after,_⟩
    · exact ⟨none,m,g,walk_level_full pt mid.1 (by rw [from_pool]; exact run),Walked.refl mirrors,full,present⟩
    · have bound : f < 2^56 := by
        have : RAM_END = 0x88000000 := rfl
        omega
      have alignedA := (mirrors.tables.tree r isRoot).l2_aligned (v := n/512/512) (by omega) parent
      have notFree : ∀ {x : Nat}, (g.own x).structural = true → x ≠ f := by
        rintro x part rfl
        rcases unused with h | h <;> rw [h] at part <;> cases part
      have freshR : r ≠ f := notFree (by rw [isRoot]; rfl)
      have freshA : a ≠ f := notFree (by rw [owner]; rfl)
      have tempF : ((g.take f).own f).structural = false := by simp [Ledger.take,Owner.structural]
      have rootR : (g.take f).own r = .root := by simpa [Ledger.take,Function.update_of_ne freshR] using isRoot
      have zeroed := after.frame (confined_fill m'.mem (p := f) 0 aligned) (by
        rintro p rfl
        exact ⟨by simp [Ledger.take],tempF⟩)
      have attached := zeroed.tables.attach_l1 rootR low (by omega) parent present tempF aligned bound (by
        intro j below
        unfold entry_at
        exact load64_fill_zero (by omega) (by omega))
      refine ⟨some f,_,attach1 (g.take f) r (n/512) f,
        walk_level_made pt mid.1 (by rw [from_pool]; exact run) aligned bound,⟨⟨?_,attached⟩,
          grows_attach1 mirrors run after unused rfl low present,?_,fun x below => ?_⟩,by simp [attach1]⟩
      · have pool := zeroed.pool.give (f := f) (o := .l1 r (n/512)) (by simp [Ledger.take]) (by simp [Ledger.take])
          (by simp) (by simp)
        have change := confined_store64 (fill m'.mem f 0 4096) (p := a) (o := 8*(n/512%512)) (new_table f) alignedA (by omega)
        have stored := pool.frame change (by
          rintro p rfl
          simp [Ledger.give,Ledger.take,Function.update_of_ne freshA,owner])
        exact { stored with }
      · rw [← mem]
        exact confined_make (new_table f) unused aligned alignedA (by omega) (by rw [owner]; rfl) (by rw [owner]; simp)
      · have place := (mirrors.pool.owned a).mp (by rw [owner]; simp)
        rw [← mem]
        exact make_below (new_table f) above (by unfold entry_at; omega) below

/-- A walk for the page `n`: it finds or makes the place of the leaf, or there is no
    room for a table that is missing. -/
theorem Mirrors.walk (mirrors : Mirrors base split m g) (at_root : pt.root = r) (from_pool : pt.frame_alloc = alloc_frame)
    (isRoot : g.own r = .root) {vaddr : Nat} (page : pageOf vaddr = n) (mine : n < split*2^18) :
    ∃ res m' g', (pt.walk vaddr).run m = .ok res m' ∧ Walked base split r n m m' g g' ∧
      match res with
      | none => room g' = 0 ∧ (g'.tree r).l1 (n/512) = none
      | some entry => ∃ b, (g'.tree r).l1 (n/512) = some b ∧ entry = entry_at b (n%512) := by
  have inside : n < 2^27 := by rw [← page]; exact pageOf_lt vaddr
  unfold PageTable.walk
  rw [vpn_two,vpn_one,vpn_zero,page,at_root]
  obtain ⟨res,m1,g1,run1,walked1,found1⟩ := mirrors.level2 pt from_pool isRoot inside mine
  have isRoot1 : g1.own r = .root := by
    rcases walked1.grows.own r with same | ⟨old,_⟩
    · rw [same]; exact isRoot
    · rw [isRoot] at old
      rcases old with h | h <;> cases h
  cases res with
  | none =>
    refine ⟨none,m1,g1,by rw [run_seq run1]; rfl,walked1,found1.1,?_⟩
    exact (walked1.mirrors.tables.tree r isRoot1).mid_none _ (by omega) found1.2
  | some a =>
    obtain ⟨res,m2,g2,run2,walked2,found2⟩ := walked1.mirrors.level1 pt from_pool isRoot1 inside mine found1
    cases res with
    | none =>
      refine ⟨none,m2,g2,?_,walked1.trans walked2,found2⟩
      rw [run_seq run1]
      dsimp only
      rw [run_seq run2]
      rfl
    | some b =>
      refine ⟨some (entry_at b (n%512)),m2,g2,?_,walked1.trans walked2,b,found2,rfl⟩
      rw [run_seq run1]
      dsimp only
      rw [run_seq run2]
      rfl

end

end Unit00.Mirror
