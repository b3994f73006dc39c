import Unit00.Ranges
import Unit00.Syscall

/-!
Giving memory back. `sys_exit` goes through the leaves of its page table and
drops every user page; `sys_wait` frees the kernel stack, the tables of the
user half and the root of the child that it reaps.
-/
namespace Unit00.Clearing
open Unit00.Memory Unit00.Execution Unit00.Frame Unit00.Paging Unit00.Paging.PTEntry Unit00.Trees Unit00.Ownership
open Unit00.Mirror Unit00.Space Unit00.Pages Unit00.Ranges Unit00.Syscall Unit00.Task
open Unit00.Eager (Page Pages unmap)

/-! ### Going through the user half -/

/-- An invariant of a traversal of the user half of `pt`, whose tables stay as they are. -/
structure Sweep (base : Nat) (pt : PageTable) (t : Tree) (callback : Nat → Nat → M Unit)
    (J : Nat → Mm → Ledger → Prop) : Prop where
  mirrors : ∀ {n m g}, J n m g → Mirrors base 2 m g
  root : ∀ {n m g}, J n m g → g.own pt.root = .root
  l2 : ∀ {n m g}, J n m g → (g.tree pt.root).l2 = t.l2
  l1 : ∀ {n m g}, J n m g → (g.tree pt.root).l1 = t.l1
  pass : ∀ {n m g}, J n m g → n < 2^19 → isLeaf ((g.tree pt.root).leaf n) = false → J (n+1) m g
  visit : ∀ {n m g entry}, J n m g → n < 2^19 → isLeaf ((g.tree pt.root).leaf n) = true →
    leafSlot (g.tree pt.root) n = some entry → ∃ m' g', (callback (n*4096) entry).run m = .ok ⟨⟩ m' ∧ J (n+1) m' g'

theorem Sweep.run {base : Nat} {pt : PageTable} {t : Tree} {callback : Nat → Nat → M Unit} {J : Nat → Mm → Ledger → Prop}
    (sweep : Sweep base pt t callback J) {m : Mm} {g : Ledger} (start : J 0 m g) :
    ∃ m' g', (pt.for_each_leaf 0 KERNEL_VPN2_MIN callback).run m = .ok ⟨⟩ m' ∧ J (2^19) m' g' := by
  have tree : ∀ {n m g}, J n m g → TreeAt true m.mem pt.root (g.tree pt.root) :=
    fun now => (sweep.mirrors now).tables.tree _ (sweep.root now)
  have walk : Traversal true pt.root t.l2 t.l1 0 2 callback (fun n m => ∃ g, J n m g) (fun _ _ => False) := by
    refine ⟨?_,?_,?_,?_,?_,?_⟩
    · rintro n m v ⟨g,now⟩ inside
      rw [← sweep.l2 now]
      exact (tree now).top v (by omega)
    · rintro n m i a ⟨g,now⟩ inside table
      rw [← sweep.l2 now] at table
      rw [← sweep.l1 now]
      exact (tree now).mid i a (by omega) table
    · intro i inside missing
      rw [← sweep.l2 start] at missing
      rw [← sweep.l1 start]
      exact (tree start).mid_none i (by omega) missing
    · rintro n m ⟨g,now⟩ _ inside missing
      rw [← sweep.l1 now] at missing
      refine ⟨g,sweep.pass now (by omega) ?_⟩
      rw [(tree now).low_none n (by omega) missing]
      rfl
    · rintro n m b ⟨g,now⟩ _ inside table idle
      rw [← sweep.l1 now] at table
      rw [(tree now).low n b (by omega) table] at idle
      exact ⟨g,sweep.pass now (by omega) idle⟩
    · rintro n m b ⟨g,now⟩ _ inside table found
      rw [← sweep.l1 now] at table
      rw [(tree now).low n b (by omega) table] at found
      obtain ⟨m',g',run,next⟩ := sweep.visit now (by omega) found
        (show leafSlot (g.tree pt.root) n = some (entry_at b (n%512)) by simp [leafSlot,table])
      rw [run]
      exact ⟨g',next⟩
  obtain ⟨m',run,g',final⟩ := (for_each_leaf_meets pt walk (by omega) (m := m) ⟨g,start⟩).total
  exact ⟨m',g',run,final⟩

/-! ### Exit -/

theorem is_u_flags (e : PTEntry) : PTEFlags.is_u (PTEntry.flags e) = is_u e := by
  rw [PTEFlags.is_u_eq,getLsbD_flags,is_u_eq]
  simp

section
variable {exact : Bool} {base : Nat} {m : Mm} {g : Ledger} {r : Nat} (pt : PageTable)

/-- A user page has a leaf that a traversal visits. -/
theorem isLeaf_user (sound : Sound exact nothing base g) {n : Nat} {e : PTEntry} (leaf : UserLeaf g r n e) : isLeaf e = true := by
  rcases (sound.shape leaf).access with h | h <;> simp [isLeaf,leaf.valid,h]

/-- After `n` pages of `sys_exit`'s traversal. -/
structure Leaving (exact : Bool) (base r : Nat) (m0 : Mm) (g0 : Ledger) (n : Nat) (m : Mm) (g : Ledger) : Prop where
  acts : Acts exact base r m0 m g0 g (unmap 0 n (space m0 g0 r))
  l2 : (g.tree r).l2 = (g0.tree r).l2
  l1 : (g.tree r).l1 = (g0.tree r).l1
  rest : ∀ k, n ≤ k → (g.tree r).leaf k = (g0.tree r).leaf k
  refs : ∀ x, g.refs x ≤ g0.refs x
  fewer : ∀ k e, k < n → UserLeaf g0 r k e → g.refs (ppn_to_addr e) < g0.refs (ppn_to_addr e)

theorem Leaving.pass {m0 : Mm} {g0 : Ledger} {n : Nat} (now : Leaving exact base r m0 g0 n m g)
    (absent : ∀ e, ¬ UserLeaf g0 r n e) (isRoot : g0.own r = .root) : Leaving exact base r m0 g0 (n+1) m g := by
  have none : space m0 g0 r n = none := by
    cases here : space m0 g0 r n with
    | none => rfl
    | some p => exact absurd (space_leaf isRoot here).2 (absent _)
  have same : unmap 0 (n+1) (space m0 g0 r) = unmap 0 n (space m0 g0 r) := by
    rw [← unmap_unmap 0 n (n+1) _ (by omega) (by omega)]
    refine unmap_absent fun k low high => ?_
    have : k = n := by omega
    subst this
    rw [unmap,if_neg (by omega)]
    exact none
  refine ⟨by rw [same]; exact now.acts,now.l2,now.l1,fun k low => now.rest k (by omega),now.refs,?_⟩
  intro k e below leaf
  by_cases here : k = n
  · subst here
    exact absurd leaf (absent e)
  · exact now.fewer k e (by omega) leaf

theorem Leaving.visit {m0 : Mm} {g0 : Ledger} {n entry : Nat} {e : PTEntry} (now : Leaving exact base r m0 g0 n m g)
    (leaf : UserLeaf g r n e) (slot : leafSlot (g.tree r) n = some entry) :
    ∃ c m1 m2 g', (dec_ref (ppn_to_addr e)).run m = .ok c m1 ∧ (Frame.write entry empty).run m1 = .ok ⟨⟩ m2 ∧
      Leaving exact base r m0 g0 (n+1) m2 g' := by
  obtain ⟨c,m1,m2,g',runDec,runWrite,acts,rfl⟩ := unmap_leaf now.acts.good leaf slot
  have positive := now.acts.good.sound.positive _ (now.acts.good.sound.user leaf)
  have tree : (setLeaf (g.drop (ppn_to_addr e)) r n 0).tree r =
      { g.tree r with leaf := Function.update (g.tree r).leaf n 0 } := by
    simp [setLeaf,drop_tree]
  refine ⟨c,m1,m2,setLeaf (g.drop (ppn_to_addr e)) r n 0,runDec,runWrite,?_,?_,?_,?_,?_,?_⟩
  · have both := now.acts.trans acts
    rwa [now.acts.pages,unmap_unmap _ _ _ _ (by omega) (by omega)] at both
  · rw [tree]
    exact now.l2
  · rw [tree]
    exact now.l1
  · intro k low
    rw [leaf_setLeaf_other _ _ (by rintro ⟨_,rfl⟩; omega),drop_tree]
    exact now.rest k (by omega)
  · intro x
    rw [setLeaf_refs,drop_refs]
    have := now.refs x
    split
    · rename_i same
      rw [← same]
      omega
    · exact this
  · intro k d below old
    rw [setLeaf_refs,drop_refs]
    by_cases here : k = n
    · have same : d = e := by
        rw [← old.entry,here,← now.rest n (le_refl _)]
        exact leaf.entry
      subst same
      rw [if_pos rfl]
      have := now.refs (ppn_to_addr d)
      omega
    · have := now.fewer k d (by omega) old
      split
      · rename_i same
        rw [← same]
        omega
      · exact this

/-- The traversal of `sys_exit` leaves no user page, and every frame that the process
    mapped has a reference less. -/
theorem exit_spec (good : Good exact base m g) (isRoot : g.own pt.root = .root) :
    ∃ m' g', (pt.for_each_leaf 0 KERNEL_VPN2_MIN exit_leaf).run m = .ok ⟨⟩ m' ∧
      Acts exact base pt.root m m' g g' (fun _ => none) ∧
      ∀ k e, UserLeaf g pt.root k e → g'.refs (ppn_to_addr e) < g.refs (ppn_to_addr e) := by
  have sweep : Sweep base pt (g.tree pt.root) exit_leaf (Leaving exact base pt.root m g) := by
    refine ⟨fun now => now.acts.good.mirrors,fun now => (now.acts.aside.roots _).mpr isRoot,fun now => now.l2,
      fun now => now.l1,?_,?_⟩
    · intro n m1 g1 now low idle
      refine now.pass (fun e leaf => ?_) isRoot
      rw [now.rest n (le_refl _),leaf.entry,isLeaf_user good.sound leaf] at idle
      cases idle
    · intro n m1 g1 entry now low found slot
      have isRoot1 := (now.acts.aside.roots _).mpr isRoot
      unfold exit_leaf
      rw [run_seq (run_read _ _),load_slot now.acts.good.mirrors isRoot1 (by omega) slot,is_u_flags]
      by_cases user : is_u ((g1.tree pt.root).leaf n) = true
      · obtain ⟨_,leaf⟩ := user_leaf_of now.acts.good isRoot1 (by omega) user
        obtain ⟨c,m2,m3,g',runDec,runWrite,next⟩ := now.visit leaf slot
        refine ⟨m3,g',?_,next⟩
        rw [if_pos user,run_seq runDec]
        exact runWrite
      · refine ⟨m1,g1,?_,now.pass (fun e leaf => ?_) isRoot⟩
        · rw [if_neg user]
          rfl
        · rw [now.rest n (le_refl _),leaf.entry] at user
          exact user leaf.user
  have start : Leaving exact base pt.root m g 0 m g := by
    refine ⟨?_,rfl,rfl,fun _ _ => rfl,fun _ => le_refl _,fun k e below _ => absurd below (by omega)⟩
    rw [unmap_absent (by intro n h h'; omega)]
    exact Acts.refl good
  obtain ⟨m',g',run,final⟩ := sweep.run start
  refine ⟨m',g',run,?_,fun k e leaf => final.fewer k e (good.sound.low leaf) leaf⟩
  have none : unmap 0 (2^19) (space m g pt.root) = fun _ => none := by
    funext n
    unfold unmap
    split
    · rfl
    · rw [space,if_neg (by omega)]
  rw [← none]
  exact final.acts

/-- A process without user pages exits without a trace. -/
theorem exit_nothing (good : Good exact base m g) (isRoot : g.own pt.root = .root) (empty : ∀ k e, ¬ UserLeaf g pt.root k e) :
    (pt.for_each_leaf 0 KERNEL_VPN2_MIN exit_leaf).run m = .ok ⟨⟩ m := by
  have sweep : Sweep base pt (g.tree pt.root) exit_leaf (fun _ m1 g1 => m1 = m ∧ g1 = g) := by
    refine ⟨?_,?_,?_,?_,?_,?_⟩
    · rintro _ _ _ ⟨rfl,rfl⟩
      exact good.mirrors
    · rintro _ _ _ ⟨rfl,rfl⟩
      exact isRoot
    · rintro _ _ _ ⟨rfl,rfl⟩
      rfl
    · rintro _ _ _ ⟨rfl,rfl⟩
      rfl
    · rintro _ _ _ same _ _
      exact same
    · rintro n m1 g1 entry ⟨rfl,rfl⟩ low _ slot
      have plain : is_u ((g1.tree pt.root).leaf n) = false := by
        rw [Bool.eq_false_iff]
        intro user
        exact empty _ _ (user_leaf_of good isRoot (by omega) user).2
      refine ⟨m1,g1,?_,rfl,rfl⟩
      unfold exit_leaf
      rw [run_seq (run_read _ _),load_slot good.mirrors isRoot (by omega) slot,is_u_flags,if_neg (by simp [plain])]
      rfl
  obtain ⟨m',g',run,rfl,_⟩ := sweep.run ⟨rfl,rfl⟩
  exact run

end

/-! ### Freeing frames one after the other -/

/-- The frames of `F` were freed, and nothing else changed. -/
structure Freeing (exact : Bool) (base : Nat) (m0 : Mm) (g0 : Ledger) (F : Nat → Prop) (m : Mm) (g : Ledger) : Prop where
  mirrors : Mirrors base 2 m g
  sound : Sound exact nothing base g
  freed : ∀ x, F x → g.own x = .free ∧ g.refs x = 0
  others : ∀ x, ¬ F x → g.own x = g0.own x ∧ g.refs x = g0.refs x
  tree : g.tree = g0.tree
  next : g.next = g0.next
  change : Confined F m0.mem m.mem

section
variable {exact : Bool} {base : Nat} {m0 m : Mm} {g0 g : Ledger} {F : Nat → Prop}

theorem Freeing.congr (now : Freeing exact base m0 g0 F m g) {F' : Nat → Prop} (same : ∀ x, F x ↔ F' x) :
    Freeing exact base m0 g0 F' m g := by
  have : F = F' := funext fun x => propext (same x)
  rwa [this] at now

/-- One more frame that no page table uses. -/
theorem Freeing.free (now : Freeing exact base m0 g0 F m g) {f : Nat} (fresh : ¬ F f)
    (loose : g0.own f = .temp ∨ ∃ b, g0.own f = .stack b) :
    ∃ m' g', (free_frame f).run m = .ok ⟨⟩ m' ∧ Freeing exact base m0 g0 (fun x => F x ∨ x = f) m' g' := by
  have owner := (now.others f fresh).1
  have plain : g.own f ≠ .none ∧ g.own f ≠ .free ∧ (g.own f).structural = false ∧ g.own f ≠ .user ∧ g.own f ≠ .root := by
    rw [owner]
    rcases loose with h | ⟨b,h⟩ <;> rw [h] <;> simp [Owner.structural]
  obtain ⟨held,used,outside,notUser,notRoot⟩ := plain
  have aligned := (now.mirrors.pool.managed held).1
  obtain ⟨m',run,mem,mirrors⟩ := now.mirrors.release held used outside
  refine ⟨m',g.release f,run,mirrors,now.sound.release notUser notRoot,?_,?_,now.tree,now.next,?_⟩
  · rintro x (old | rfl)
    · have other : x ≠ f := by
        rintro rfl
        exact fresh old
      simp only [Ledger.release,Function.update_of_ne other]
      exact now.freed x old
    · simp [Ledger.release]
  · intro x outside'
    have other : x ≠ f := fun same => outside' (.inr same)
    simp only [Ledger.release,Function.update_of_ne other]
    exact now.others x fun old => outside' (.inl old)
  · have last : Confined (· = f) m.mem m'.mem := by
      rw [mem]
      exact confined_store64 m.mem (p := f) (o := 0) _ aligned (by omega)
    exact (now.change.mono fun _ h => .inl h).trans (last.mono fun _ h => .inr h)

/-- The kernel stack of a reaped child. -/
theorem free_stack (start : Freeing exact base m g (fun _ => False) m g) {s : Nat}
    (frames : ∀ i, i < KERNEL_STACK_PAGES → g.own (s+i*PAGE_SIZE) = .stack s) :
    ∃ m' g', (forM (List.range' 0 KERNEL_STACK_PAGES) fun i => free_frame (s+i*PAGE_SIZE)).run m = .ok ⟨⟩ m' ∧
      Freeing exact base m g (fun x => ∃ i, i < KERNEL_STACK_PAGES ∧ x = s+i*PAGE_SIZE) m' g' := by
  have loop := forM_range' (fun n m' => ∃ g', Freeing exact base m g (fun x => ∃ i, i < n ∧ x = s+i*PAGE_SIZE) m' g')
    (fun i => free_frame (s+i*PAGE_SIZE)) 0 KERNEL_STACK_PAGES m ⟨g,start.congr (by simp)⟩ ?_
  · obtain ⟨m',run,g',final⟩ := loop
    exact ⟨m',g',run,final.congr (by simp)⟩
  · rintro i m1 _ below ⟨g1,now⟩
    have page : PAGE_SIZE = 4096 := rfl
    obtain ⟨m2,g2,run,next⟩ := now.free (f := s+i*PAGE_SIZE) (by rintro ⟨j,earlier,same⟩; rw [page] at same; omega)
      (.inr ⟨s,frames i (by omega)⟩)
    refine ⟨m2,run,g2,next.congr fun x => ?_⟩
    constructor
    · rintro (⟨j,earlier,same⟩ | same)
      · exact ⟨j,by omega,same⟩
      · exact ⟨i,by omega,same⟩
    · rintro ⟨j,earlier,same⟩
      by_cases last : j = i
      · exact .inr (last ▸ same)
      · exact .inl ⟨j,by omega,same⟩

end

/-! ### Freeing the tables of a page table -/

/-- The first `n` low tables and the first `v` middle tables of the user half. -/
def Dismantled (t : Tree) (G : Nat → Prop) (n v x : Nat) : Prop :=
  G x ∨ (∃ i, i < n ∧ t.l1 i = some x) ∨ ∃ w, w < v ∧ t.l2 w = some x

section
variable {exact : Bool} {base : Nat} {m0 m : Mm} {g g1 : Ledger} {r : Nat} {G : Nat → Prop}

/-- Who the freed frames belonged to. -/
theorem dismantled_owner (tables : Tables 2 m0.mem g) (isRoot : g.own r = .root) (stacks_only : ∀ x, G x → ∃ b, g.own x = .stack b)
    {n v x : Nat} (small : n ≤ 1024) (few : v ≤ 2) (there : Dismantled (g.tree r) G n v x) :
    (∃ b, g.own x = .stack b) ∨ (∃ i, i < n ∧ g.own x = .l1 r i) ∨ ∃ w, w < v ∧ g.own x = .l2 r w := by
  rcases there with inside | ⟨i,below,table⟩ | ⟨w,below,table⟩
  · exact .inl (stacks_only x inside)
  · refine .inr (.inl ⟨i,below,?_⟩)
    rw [tables.l1 r i x isRoot (by omega) table,home1,if_pos (by omega)]
  · refine .inr (.inr ⟨w,below,?_⟩)
    rw [tables.l2 r w x isRoot (by omega) table,home2,if_pos (by omega)]

theorem retire_l1 {x i : Nat} (here : g.own x = .l1 r i) : (retire g r).own x = .temp := by
  simp [retire,retired,here]

theorem retire_l2 {x v : Nat} (here : g.own x = .l2 r v) : (retire g r).own x = .temp := by
  simp [retire,retired,here]

theorem retire_stack {x b : Nat} (here : g.own x = .stack b) : (retire g r).own x = .stack b := by
  simp [retire,retired,here]

theorem retire_self (here : g.own r = .root) : (retire g r).own r = .temp := by
  simp [retire,retired,here]

/-- One low table. -/
theorem free_low (tables : Tables 2 m0.mem g) (isRoot : g.own r = .root) (stacks_only : ∀ x, G x → ∃ b, g.own x = .stack b)
    {a v i : Nat} (inside : v < 2) (small : i < 512) (middle : (g.tree r).l2 v = some a)
    (now : Freeing exact base m0 (retire g r) (Dismantled (g.tree r) G (512*v+i) v) m g1) :
    ∃ m' g', (do
        let l2_entry ← Frame.read (entry_at a i)
        if is_valid l2_entry then
          if !is_r l2_entry && !is_w l2_entry && !is_x l2_entry then
            free_frame (ppn_to_addr l2_entry) : M Unit).run m = .ok ⟨⟩ m' ∧
      Freeing exact base m0 (retire g r) (Dismantled (g.tree r) G (512*v+(i+1)) v) m' g' := by
  have owner : g.own a = .l2 r v := by rw [tables.l2 r v a isRoot (by omega) middle,home2,if_pos inside]
  have kept : ¬ Dismantled (g.tree r) G (512*v+i) v a := by
    intro there
    rcases dismantled_owner tables isRoot stacks_only (by omega) (by omega) there with ⟨b,h⟩ | ⟨j,_,h⟩ | ⟨w,below,h⟩
    · rw [owner] at h; cases h
    · rw [owner] at h; cases h
    · rw [owner] at h; cases h; omega
  have tree := tables.tree r isRoot
  have word : load64 m.mem (entry_at a i) = load64 m0.mem (entry_at a i) :=
    now.change.load (tree.l2_aligned (by omega) middle) (by omega) kept
  have slot := tree.mid (512*v+i) a (by omega) (by rw [show (512*v+i)/512 = v by omega]; exact middle)
  rw [show (512*v+i)%512 = i by omega] at slot
  rw [run_seq (run_read _ _),word]
  cases table : (g.tree r).l1 (512*v+i) with
  | none =>
    rw [table] at slot
    refine ⟨m,g1,?_,now.congr fun x => ?_⟩
    · have invalid : is_valid (load64 m0.mem (entry_at a i)) = false := slot.1
      rw [if_neg (by simp [invalid])]
      rfl
    · unfold Dismantled
      refine or_congr .rfl (or_congr ?_ .rfl)
      constructor
      · rintro ⟨j,below,found⟩
        exact ⟨j,by omega,found⟩
      · rintro ⟨j,below,found⟩
        refine ⟨j,?_,found⟩
        by_contra beyond
        have : j = 512*v+i := by omega
        subst this
        rw [table] at found
        cases found
  | some b =>
    rw [table] at slot
    have names : Names true (load64 m0.mem (entry_at a i)) b := slot
    have ownerB : g.own b = .l1 r (512*v+i) := by
      rw [tables.l1 r _ b isRoot (by omega) table,home1,if_pos (by omega)]
    obtain ⟨m',g',run,next⟩ := now.free (f := b) (by
      intro there
      rcases dismantled_owner tables isRoot stacks_only (by omega) (by omega) there with ⟨s,h⟩ | ⟨j,below,h⟩ | ⟨w,_,h⟩
      · rw [ownerB] at h; cases h
      · rw [ownerB] at h; cases h; omega
      · rw [ownerB] at h; cases h) (.inl (retire_l1 ownerB))
    refine ⟨m',g',?_,next.congr fun x => ?_⟩
    · rw [if_pos names.valid,if_pos (by simp [names.not_r,names.not_w,names.not_x]),names.address]
      exact run
    · unfold Dismantled
      constructor
      · rintro ((h | ⟨j,below,found⟩ | h) | rfl)
        · exact .inl h
        · exact .inr (.inl ⟨j,by omega,found⟩)
        · exact .inr (.inr h)
        · exact .inr (.inl ⟨512*v+i,by omega,table⟩)
      · rintro (h | ⟨j,below,found⟩ | h)
        · exact .inl (.inl h)
        · by_cases last : j = 512*v+i
          · subst last
            rw [table] at found
            exact .inr (Option.some.inj found).symm
          · exact .inl (.inr (.inl ⟨j,by omega,found⟩))
        · exact .inl (.inr (.inr h))

/-- A middle table with the low tables under it. -/
theorem free_middle (tables : Tables 2 m0.mem g) (isRoot : g.own r = .root) (stacks_only : ∀ x, G x → ∃ b, g.own x = .stack b)
    {v : Nat} (inside : v < 2) (now : Freeing exact base m0 (retire g r) (Dismantled (g.tree r) G (512*v) v) m g1) :
    ∃ m' g', (do
        let entry ← Frame.read (entry_at r v)
        if is_valid entry then
          let l2_addr := ppn_to_addr entry
          forM (List.range' 0 512) fun vpn1 => do
            let l2_entry ← Frame.read (entry_at l2_addr vpn1)
            if is_valid l2_entry then
              if !is_r l2_entry && !is_w l2_entry && !is_x l2_entry then
                free_frame (ppn_to_addr l2_entry)
          free_frame l2_addr : M Unit).run m = .ok ⟨⟩ m' ∧
      Freeing exact base m0 (retire g r) (Dismantled (g.tree r) G (512*(v+1)) (v+1)) m' g' := by
  have kept : ¬ Dismantled (g.tree r) G (512*v) v r := by
    intro there
    rcases dismantled_owner tables isRoot stacks_only (by omega) (by omega) there with ⟨b,h⟩ | ⟨j,_,h⟩ | ⟨w,_,h⟩ <;>
    · rw [isRoot] at h; cases h
  have tree := tables.tree r isRoot
  have word : load64 m.mem (entry_at r v) = load64 m0.mem (entry_at r v) :=
    now.change.load (tables.aligned r isRoot) (by omega) kept
  have slot := tree.top v (by omega)
  rw [run_seq (run_read _ _),word]
  cases middle : (g.tree r).l2 v with
  | none =>
    rw [middle] at slot
    refine ⟨m,g1,?_,now.congr fun x => ?_⟩
    · have invalid : is_valid (load64 m0.mem (entry_at r v)) = false := slot.1
      rw [if_neg (by simp [invalid])]
      rfl
    · unfold Dismantled
      refine or_congr .rfl (or_congr ?_ ?_)
      · constructor
        · rintro ⟨j,below,found⟩
          have wider : j < 512*(v+1) := by omega
          exact ⟨j,wider,found⟩
        · rintro ⟨j,below,found⟩
          refine ⟨j,?_,found⟩
          by_contra beyond
          have : j/512 = v := by omega
          rw [tree.mid_none j (by omega) (by rw [this]; exact middle)] at found
          cases found
      · constructor
        · rintro ⟨w,below,found⟩
          exact ⟨w,by omega,found⟩
        · rintro ⟨w,below,found⟩
          refine ⟨w,?_,found⟩
          by_contra beyond
          have : w = v := by omega
          subst this
          rw [middle] at found
          cases found
  | some a =>
    rw [middle] at slot
    have names : Names true (load64 m0.mem (entry_at r v)) a := slot
    have owner : g.own a = .l2 r v := by rw [tables.l2 r v a isRoot (by omega) middle,home2,if_pos inside]
    rw [if_pos names.valid]
    simp only [names.address]
    have started : ∃ g', Freeing exact base m0 (retire g r) (Dismantled (g.tree r) G (512*v+0) v) m g' := ⟨g1,now⟩
    have loop := forM_range'
      (fun i m' => ∃ g', Freeing exact base m0 (retire g r) (Dismantled (g.tree r) G (512*v+i) v) m' g')
      (fun vpn1 => do
        let l2_entry ← Frame.read (entry_at a vpn1)
        if is_valid l2_entry then
          if !is_r l2_entry && !is_w l2_entry && !is_x l2_entry then
            free_frame (ppn_to_addr l2_entry) : Nat → M Unit) 0 512 m started (by
        rintro i m2 _ below ⟨g2,now2⟩
        obtain ⟨m3,g3,run,next⟩ := free_low tables isRoot stacks_only inside (by omega) middle now2
        exact ⟨m3,run,g3,next⟩)
    obtain ⟨m2,run,g2,now2⟩ := loop
    obtain ⟨m3,g3,run3,next⟩ := now2.free (f := a) (by
      intro there
      rcases dismantled_owner tables isRoot stacks_only (by omega) (by omega) there with ⟨s,h⟩ | ⟨j,_,h⟩ | ⟨w,below,h⟩
      · rw [owner] at h; cases h
      · rw [owner] at h; cases h
      · rw [owner] at h; cases h; omega) (.inl (retire_l2 owner))
    refine ⟨m3,g3,?_,next.congr fun x => ?_⟩
    · rw [run_seq run]
      exact run3
    · unfold Dismantled
      constructor
      · rintro ((h | ⟨j,below,found⟩ | ⟨w,below,found⟩) | rfl)
        · exact .inl h
        · have wider : j < 512*(v+1) := by omega
          exact .inr (.inl ⟨j,wider,found⟩)
        · exact .inr (.inr ⟨w,by omega,found⟩)
        · exact .inr (.inr ⟨v,by omega,middle⟩)
      · rintro (h | ⟨j,below,found⟩ | ⟨w,below,found⟩)
        · exact .inl (.inl h)
        · have wider : j < 512*v+(0+512) := by omega
          exact .inl (.inr (.inl ⟨j,wider,found⟩))
        · by_cases last : w = v
          · subst last
            rw [middle] at found
            exact .inr (Option.some.inj found).symm
          · exact .inl (.inr (.inr ⟨w,by omega,found⟩))

/-- What a process holds beside its user pages: the kernel stack at `s` and the page
    table under `r`. -/
def Belongs (g : Ledger) (r s x : Nat) : Prop :=
  g.own x = .stack s ∨ (∃ i, g.own x = .l1 r i) ∨ (∃ v, g.own x = .l2 r v) ∨ x = r

theorem retire_mirrors (mirrors : Mirrors base 2 m g) (r : Nat) : Mirrors base 2 m (retire g r) := by
  refine ⟨mirrors.pool.reown ?_ ?_,mirrors.tables.retire r⟩ <;>
  · intro x
    constructor
    · exact fun here => retire_own (by simp) here
    · intro here
      simp [retired,here]

theorem retire_temp {x : Nat} (here : (retire g r).own x = .temp) (settled : g.own x ≠ .temp) :
    (∃ i, g.own x = .l1 r i) ∨ (∃ v, g.own x = .l2 r v) ∨ x = r := by
  cases owner : g.own x with
  | l1 q i =>
    by_cases same : q = r
    · exact .inl ⟨i,by rw [same]⟩
    · simp [retire,retired,owner,same] at here
  | l2 q v =>
    by_cases same : q = r
    · exact .inr (.inl ⟨v,by rw [same]⟩)
    · simp [retire,retired,owner,same] at here
  | root =>
    by_cases same : x = r
    · exact .inr (.inr same)
    · simp [retire,retired,owner,same] at here
  | temp => exact absurd owner settled
  | none => simp [retire,retired,owner] at here
  | free => simp [retire,retired,owner] at here
  | user => simp [retire,retired,owner] at here
  | kernel => simp [retire,retired,owner] at here
  | stack b => simp [retire,retired,owner] at here

/-- `free_user_pt_resources` frees the stack and the page table of a child, and
    nothing else. -/
theorem free_user_pt_resources_spec {after : Bool} (good : Good exact base m g) (child : Process)
    (isRoot : g.own child.page_table.root = .root) (sound : Sound after nothing base (retire g child.page_table.root))
    (frames : ∀ x, g.own x = .stack child.kernel_stack_frame ↔
      ∃ i, i < KERNEL_STACK_PAGES ∧ x = child.kernel_stack_frame+i*PAGE_SIZE) :
    ∃ m' g', (free_user_pt_resources child).run m = .ok ⟨⟩ m' ∧ Good after base m' g' ∧
      Freeing after base m (retire g child.page_table.root) (Belongs g child.page_table.root child.kernel_stack_frame) m' g' := by
  have mirrors := retire_mirrors good.mirrors child.page_table.root
  have tables := good.mirrors.tables
  have start : Freeing after base m (retire g child.page_table.root) (fun _ => False) m (retire g child.page_table.root) :=
    ⟨mirrors,sound,fun x h => h.elim,fun x _ => ⟨rfl,rfl⟩,rfl,rfl,Confined.refl _ _⟩
  obtain ⟨m1,g1,run1,now1⟩ := free_stack start fun i below => retire_stack ((frames _).mpr ⟨i,below,rfl⟩)
  have stack_only : ∀ x, (∃ i, i < KERNEL_STACK_PAGES ∧ x = child.kernel_stack_frame+i*PAGE_SIZE) → ∃ b, g.own x = .stack b :=
    fun x h => ⟨_,(frames x).mpr h⟩
  have begun : Freeing after base m (retire g child.page_table.root) (Dismantled (g.tree child.page_table.root)
      (fun x => ∃ i, i < KERNEL_STACK_PAGES ∧ x = child.kernel_stack_frame+i*PAGE_SIZE) (512*0) 0) m1 g1 := by
    refine now1.congr fun x => ⟨.inl,?_⟩
    rintro (h | ⟨i,below,_⟩ | ⟨w,below,_⟩)
    · exact h
    · omega
    · omega
  have loop := forM_range' (fun v m' => ∃ g', Freeing after base m (retire g child.page_table.root)
      (Dismantled (g.tree child.page_table.root)
        (fun x => ∃ i, i < KERNEL_STACK_PAGES ∧ x = child.kernel_stack_frame+i*PAGE_SIZE) (512*v) v) m' g')
    (fun vpn2 => do
      let entry ← Frame.read (entry_at child.page_table.root vpn2)
      if is_valid entry then
        let l2_addr := ppn_to_addr entry
        forM (List.range' 0 512) fun vpn1 => do
          let l2_entry ← Frame.read (entry_at l2_addr vpn1)
          if is_valid l2_entry then
            if !is_r l2_entry && !is_w l2_entry && !is_x l2_entry then
              free_frame (ppn_to_addr l2_entry)
        free_frame l2_addr : Nat → M Unit) 0 2 m1 ⟨g1,begun⟩ (by
      rintro v m2 _ below ⟨g2,now2⟩
      obtain ⟨m3,g3,run,next⟩ := free_middle tables isRoot stack_only (by omega) now2
      exact ⟨m3,run,g3,next⟩)
  obtain ⟨m2,run2,g2,now2⟩ := loop
  obtain ⟨m3,g3,run3,now3⟩ := now2.free (f := child.page_table.root) (by
    intro there
    rcases dismantled_owner tables isRoot stack_only (by omega) (by omega) there with ⟨s,h⟩ | ⟨j,_,h⟩ | ⟨w,_,h⟩ <;>
    · rw [isRoot] at h
      cases h) (.inl (retire_self isRoot))
  have final : Freeing after base m (retire g child.page_table.root)
      (Belongs g child.page_table.root child.kernel_stack_frame) m3 g3 := by
    refine now3.congr fun x => ?_
    constructor
    · rintro (there | rfl)
      · rcases there with h | ⟨i,below,table⟩ | ⟨w,below,table⟩
        · exact .inl ((frames x).mpr h)
        · refine .inr (.inl ⟨i,?_⟩)
          rw [tables.l1 _ i x isRoot (by omega) table,home1,if_pos (by omega)]
        · refine .inr (.inr (.inl ⟨w,?_⟩))
          rw [tables.l2 _ w x isRoot (by omega) table,home2,if_pos (by omega)]
      · exact .inr (.inr (.inr rfl))
    · rintro (h | ⟨i,h⟩ | ⟨v,h⟩ | rfl)
      · exact .inl (.inl ((frames x).mp h))
      · obtain ⟨_,below,table⟩ := tables.l1_back x _ i h
        exact .inl (.inr (.inl ⟨i,by omega,table⟩))
      · obtain ⟨_,below,table⟩ := tables.l2_back x _ v h
        exact .inl (.inr (.inr ⟨v,by omega,table⟩))
      · exact .inr rfl
  refine ⟨m3,g3,?_,⟨final.mirrors,final.sound,?_⟩,final⟩
  · have tables_freed : (free_intermediate_frames child.page_table.root 0 KERNEL_VPN2_MIN).run m1 = .ok ⟨⟩ m2 := run2
    unfold free_user_pt_resources
    rw [run_seq run1,run_seq tables_freed]
    exact run3
  · intro x here
    by_cases mine : Belongs g child.page_table.root child.kernel_stack_frame x
    · rw [(final.freed x mine).1] at here
      cases here
    · rw [(final.others x mine).1] at here
      exact mine (.inr (retire_temp here (good.settled x)))

/-- The roots and stacks that are left, and what the other processes see. -/
theorem Freeing.left {r s : Nat} {m' : Mm} {g' : Ledger} (freeing : Freeing exact base m (retire g r) (Belongs g r s) m' g')
    (isRoot : g.own r = .root) :
    (∀ x, g'.own x = .root ↔ g.own x = .root ∧ x ≠ r) ∧ ∀ x b, g'.own x = .stack b ↔ g.own x = .stack b ∧ b ≠ s := by
  constructor
  · intro x
    by_cases mine : Belongs g r s x
    · rw [(freeing.freed x mine).1]
      constructor
      · intro impossible
        cases impossible
      · rintro ⟨root,other⟩
        rcases mine with h | ⟨i,h⟩ | ⟨v,h⟩ | h
        · rw [root] at h; cases h
        · rw [root] at h; cases h
        · rw [root] at h; cases h
        · exact absurd h other
    · rw [(freeing.others x mine).1]
      exact retire_root
  · intro x b
    by_cases mine : Belongs g r s x
    · rw [(freeing.freed x mine).1]
      constructor
      · intro impossible
        cases impossible
      · rintro ⟨stack,other⟩
        rcases mine with h | ⟨i,h⟩ | ⟨v,h⟩ | h
        · rw [stack] at h; cases h; exact absurd rfl other
        · rw [stack] at h; cases h
        · rw [stack] at h; cases h
        · rw [h,isRoot] at stack; cases stack
    · rw [(freeing.others x mine).1]
      constructor
      · intro here
        have before := retire_own (by simp) here
        exact ⟨before,fun same => mine (.inl (same ▸ before))⟩
      · rintro ⟨here,_⟩
        exact retire_stack here

/-- A frame that somebody else uses is not freed. -/
theorem not_belongs {r s x : Nat} (isRoot : g.own r = .root) (other : g.own x = .user ∨ ∃ b, g.own x = .stack b ∧ b ≠ s) :
    ¬ Belongs g r s x := by
  rintro (h | ⟨i,h⟩ | ⟨v,h⟩ | rfl)
  · rcases other with o | ⟨b,o,different⟩
    · rw [h] at o; cases o
    · rw [h] at o; cases o; exact different rfl
  · rcases other with o | ⟨b,o,_⟩ <;> rw [h] at o <;> cases o
  · rcases other with o | ⟨b,o,_⟩ <;> rw [h] at o <;> cases o
  · rcases other with o | ⟨b,o,_⟩ <;> rw [isRoot] at o <;> cases o

theorem Freeing.space {r s : Nat} {m' : Mm} {g' : Ledger} (good : Good exact base m g) {after : Bool}
    (freeing : Freeing after base m (retire g r) (Belongs g r s) m' g') (isRoot : g.own r = .root) {q : Nat}
    (isRootQ : g.own q = .root) : space m' g' q = space m g q := by
  funext n
  refine space_same isRootQ (by rw [freeing.tree]; rfl) freeing.change fun e leaf => ?_
  exact not_belongs isRoot (.inl (good.sound.user leaf))

end

end Unit00.Clearing
