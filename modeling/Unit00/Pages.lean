import Unit00.Mapping
import Unit00.Eager

/-!
The pages that a process sees, and what the kernel's operations on a page table
do to them: resolving a copy-on-write page changes nothing that any process can
see; unmapping and mapping change one page of one process.
-/
namespace Unit00.Pages
open Unit00.Memory Unit00.Execution Unit00.Frame Unit00.Paging Unit00.Paging.PTEntry Unit00.Trees Unit00.Ownership
open Unit00.Mirror Unit00.Space
open Unit00.Eager (Page Pages)

/-- Memory that mirrors a ledger in which the invariant holds, with no frame between
    two owners. -/
structure Good (exact : Bool) (base : Nat) (m : Mm) (g : Ledger) : Prop where
  mirrors : Mirrors base 2 m g
  sound : Sound exact nothing base g
  settled : ∀ x, g.own x ≠ .temp

/-- Without the claim that the counts are exact. -/
theorem Good.leaky {exact : Bool} {base : Nat} {m : Mm} {g : Ledger} (good : Good exact base m g) : Good false base m g := by
  obtain ⟨mirrors,sound,settled⟩ := good
  refine ⟨mirrors,⟨sound.low,sound.shape,sound.user,sound.page,sound.alone,sound.count,?_,sound.positive,sound.bounded,
    sound.others,sound.roots,sound.plain,sound.upper⟩,settled⟩
  intro impossible
  cases impossible

/-- The page behind an entry: a page that is copied on write counts as writable. -/
def pageAt (mem : Mem) (e : PTEntry) : Option Page :=
  if is_valid e && is_u e then
    some { readable := is_r e, writable := is_w e || is_cow e, executable := is_x e
           bytes := fun o => mem (ppn_to_addr e+o) }
  else none

/-- The pages under a root. -/
def space (m : Mm) (g : Ledger) (r : Nat) : Pages := fun n => if n < 2^19 then pageAt m.mem ((g.tree r).leaf n) else none

theorem pageAt_user {mem : Mem} {e : PTEntry} (valid : is_valid e = true) (user : is_u e = true) :
    pageAt mem e = some { readable := is_r e, writable := is_w e || is_cow e, executable := is_x e
                          bytes := fun o => mem (ppn_to_addr e+o) } := by
  simp [pageAt,valid,user]

theorem pageAt_some {mem : Mem} {e : PTEntry} {p : Page} (here : pageAt mem e = some p) :
    is_valid e = true ∧ is_u e = true := by
  unfold pageAt at here
  split at here
  · rename_i both
    rwa [Bool.and_eq_true] at both
  · cases here

theorem pageAt_zero (mem : Mem) : pageAt mem 0 = none := rfl

theorem space_low {m : Mm} {g : Ledger} {r n : Nat} (low : n < 2^19) : space m g r n = pageAt m.mem ((g.tree r).leaf n) := by
  rw [space,if_pos low]

theorem space_leaf {m : Mm} {g : Ledger} {r n : Nat} {p : Page} (isRoot : g.own r = .root) (here : space m g r n = some p) :
    n < 2^19 ∧ UserLeaf g r n ((g.tree r).leaf n) := by
  unfold space at here
  split at here
  · rename_i low
    obtain ⟨valid,user⟩ := pageAt_some here
    exact ⟨low,isRoot,by omega,rfl,valid,user⟩
  · cases here

/-- The same entry over the same bytes is the same page. -/
theorem pageAt_same {mem mem' : Mem} {e : PTEntry} {S : Nat → Prop} (change : Confined S mem mem')
    (off : is_valid e = true → is_u e = true → ¬ S (ppn_to_addr e)) : pageAt mem' e = pageAt mem e := by
  unfold pageAt
  split
  · rename_i both
    rw [Bool.and_eq_true] at both
    congr 2
    funext o
    exact change.byte (ppn_to_addr_mod _) o.isLt (off both.1 both.2)
  · rfl

theorem space_same {m m' : Mm} {g g' : Ledger} {r n : Nat} {S : Nat → Prop} (isRoot : g.own r = .root)
    (entry : (g'.tree r).leaf n = (g.tree r).leaf n) (change : Confined S m.mem m'.mem)
    (off : ∀ e, UserLeaf g r n e → ¬ S (ppn_to_addr e)) : space m' g' r n = space m g r n := by
  unfold space
  split
  · rename_i low
    rw [entry]
    exact pageAt_same change fun valid user => off _ ⟨isRoot,by omega,rfl,valid,user⟩
  · rfl

/-! ### What an operation leaves alone -/

/-- An operation for the root `r`: no other process sees it. -/
structure Aside (r : Nat) (m m' : Mm) (g g' : Ledger) : Prop where
  roots : ∀ x, g'.own x = .root ↔ g.own x = .root
  stack : ∀ x b, g'.own x = .stack b ↔ g.own x = .stack b
  spaces : ∀ q, q ≠ r → g.own q = .root → space m' g' q = space m g q
  upper : ∀ q n, g.own q = .root → 2^19 ≤ n → (g'.tree q).leaf n = (g.tree q).leaf n
  tops : ∀ q v, g.own q = .root → 2 ≤ v → (g'.tree q).l2 v = (g.tree q).l2 v
  kernel : ∀ x, g'.own x = .kernel ↔ g.own x = .kernel
  stack_bytes : ∀ x b o, g.own x = .stack b → o < 4096 → m'.mem (x+o) = m.mem (x+o)
  kernel_bytes : ∀ x o, g.own x = .kernel → o < 4096 → m'.mem (x+o) = m.mem (x+o)
  next : g.next ≤ g'.next

theorem Aside.refl (r : Nat) (m : Mm) (g : Ledger) : Aside r m m g g :=
  ⟨fun _ => .rfl,fun _ _ => .rfl,fun _ _ _ => rfl,fun _ _ _ _ => rfl,fun _ _ _ _ => rfl,fun _ => .rfl,
    fun _ _ _ _ _ => rfl,fun _ _ _ _ => rfl,le_refl _⟩

theorem Aside.trans {r : Nat} {a b c : Mm} {x y z : Ledger} (first : Aside r a b x y) (second : Aside r b c y z) :
    Aside r a c x z := by
  refine ⟨fun f => (second.roots f).trans (first.roots f),fun f s => (second.stack f s).trans (first.stack f s),
    ?_,?_,?_,fun f => (second.kernel f).trans (first.kernel f),?_,?_,first.next.trans second.next⟩
  · intro q other isRoot
    rw [second.spaces q other ((first.roots q).mpr isRoot),first.spaces q other isRoot]
  · intro q n isRoot high
    rw [second.upper q n ((first.roots q).mpr isRoot) high,first.upper q n isRoot high]
  · intro q v isRoot high
    rw [second.tops q v ((first.roots q).mpr isRoot) high,first.tops q v isRoot high]
  · intro f s o here inside
    rw [second.stack_bytes f s o ((first.stack f s).mpr here) inside,first.stack_bytes f s o here inside]
  · intro f o here inside
    rw [second.kernel_bytes f o ((first.kernel f).mpr here) inside,first.kernel_bytes f o here inside]

/-- An operation for `r` that `r` does not see either. -/
theorem Aside.unseen {r : Nat} {m m' : Mm} {g g' : Ledger} (aside : Aside r m m' g g') (same : space m' g' r = space m g r)
    (q : Nat) : Aside q m m' g g' := by
  refine { aside with spaces := ?_ }
  intro p _ isRoot
  by_cases mine : p = r
  · rw [mine]
    exact same
  · exact aside.spaces p mine isRoot

/-- A frame that only `r` may map and that is no kernel stack and no table of the
    kernel half. -/
structure Private (g : Ledger) (r p : Nat) : Prop where
  stack : ∀ b, g.own p ≠ .stack b
  kernel : g.own p ≠ .kernel
  mapped : ∀ {q k d}, UserLeaf g q k d → ppn_to_addr d = p → q = r

/-- A frame that is no user frame, no stack and not of the kernel half is private to any
    root. -/
theorem private_of {exact : Bool} {owed : Nat → Nat} {base : Nat} {g : Ledger} (sound : Sound exact owed base g) {r p : Nat}
    (stack : ∀ b, g.own p ≠ .stack b) (kernel : g.own p ≠ .kernel) (notUser : g.own p ≠ .user) : Private g r p := by
  refine ⟨stack,kernel,?_⟩
  rintro q k d leaf rfl
  exact absurd (sound.user leaf) notUser

/-- An operation that changes private frames and the user half of `r` only. -/
theorem aside_of {base split r : Nat} {m m' : Mm} {g g' : Ledger} {S : Nat → Prop}
    (mirrors : Mirrors base split m g) (change : Confined S m.mem m'.mem)
    (touched : ∀ p, S p → Private g r p) (roots : ∀ x, g'.own x = .root ↔ g.own x = .root)
    (stack : ∀ x b, g'.own x = .stack b ↔ g.own x = .stack b) (kernel : ∀ x, g'.own x = .kernel ↔ g.own x = .kernel)
    (leaves : ∀ q n, ¬ (q = r ∧ n < 2^19) → (g'.tree q).leaf n = (g.tree q).leaf n)
    (tops : ∀ q v, g.own q = .root → 2 ≤ v → (g'.tree q).l2 v = (g.tree q).l2 v) (next : g.next ≤ g'.next) :
    Aside r m m' g g' := by
  refine ⟨roots,stack,?_,?_,tops,kernel,?_,?_,next⟩
  · intro q other isRoot
    funext n
    refine space_same isRoot (leaves q n fun both => other both.1) change ?_
    intro e leaf inside
    exact other ((touched _ inside).mapped leaf rfl)
  · intro q n _ high
    exact leaves q n fun both => absurd both.2 (by omega)
  · intro x b o here inside
    have aligned := (mirrors.pool.managed (f := x) (by rw [here]; simp)).1
    exact change.byte aligned inside fun touch => (touched _ touch).stack b here
  · intro x o here inside
    have aligned := (mirrors.pool.managed (f := x) (by rw [here]; simp)).1
    exact change.byte aligned inside fun touch => (touched _ touch).kernel here

/-! ### Entries -/

section
variable {exact : Bool} {base : Nat} {m : Mm} {g : Ledger} {r n entry : Nat}

theorem Good.lookup (good : Good exact base m g) (pt : PageTable) (isRoot : g.own pt.root = .root) (vaddr : Nat) :
    (pt.lookup vaddr).run m = .ok (leafSlot (g.tree pt.root) (pageOf vaddr)) m :=
  lookup_eq pt (good.mirrors.tables.tree _ isRoot) vaddr

/-- The entry at the place of a leaf. -/
theorem load_slot {split : Nat} (mirrors : Mirrors base split m g) (isRoot : g.own r = .root) (inside : n < 2^27)
    (slot : leafSlot (g.tree r) n = some entry) : load64 m.mem entry = (g.tree r).leaf n := by
  unfold leafSlot at slot
  obtain ⟨b,table,rfl⟩ := Option.map_eq_some_iff.mp slot
  exact (mirrors.tables.tree r isRoot).low n b inside table

theorem leaf_no_slot {split : Nat} (mirrors : Mirrors base split m g) (isRoot : g.own r = .root) (inside : n < 2^27)
    (slot : leafSlot (g.tree r) n = none) : (g.tree r).leaf n = 0 := by
  unfold leafSlot at slot
  exact (mirrors.tables.tree r isRoot).low_none n inside (Option.map_eq_none_iff.mp slot)

theorem UserLeaf.slot (mirrors : Mirrors base 2 m g) {e : PTEntry} (leaf : UserLeaf g r n e) :
    ∃ entry, leafSlot (g.tree r) n = some entry := by
  obtain ⟨b,table⟩ := (mirrors.tables.tree r leaf.root).leaf_table leaf.inside (by rw [leaf.entry]; exact leaf.valid)
  exact ⟨entry_at b (n%512),by simp [leafSlot,table]⟩

theorem leafSlot_setLeaf (q k : Nat) (e : PTEntry) : leafSlot ((setLeaf g r n e).tree q) k = leafSlot (g.tree q) k := by
  by_cases same : q = r
  · subst same
    simp [setLeaf,leafSlot]
  · simp [setLeaf,Function.update_of_ne same]

/-- Writing an entry of the user half. -/
theorem write_leaf {split : Nat} (mirrors : Mirrors base split m g) (isRoot : g.own r = .root) (inside : n < 2^27)
    (low : n < split*2^18) (slot : leafSlot (g.tree r) n = some entry) (e : PTEntry) :
    Mirrors base split { m with mem := store64 m.mem entry e } (setLeaf g r n e) ∧
      ∃ b, g.own b = .l1 r (n/512) ∧ Confined (· = b) m.mem (store64 m.mem entry e) := by
  unfold leafSlot at slot
  obtain ⟨b,table,rfl⟩ := Option.map_eq_some_iff.mp slot
  have owner : g.own b = .l1 r (n/512) := by
    rw [mirrors.tables.l1 r _ b isRoot (by omega) table,home1,if_pos (by omega)]
  have aligned := (mirrors.tables.tree r isRoot).l1_aligned (i := n/512) (by omega) table
  have change := confined_store64 m.mem (p := b) (o := 8*(n%512)) e aligned (by omega)
  refine ⟨⟨?_,mirrors.tables.set_leaf isRoot inside low table e⟩,b,owner,change⟩
  have pool := mirrors.pool.frame change (by rintro p rfl; rw [owner]; simp)
  exact { pool with }

/-- A table is no user frame. -/
theorem not_mapped {owed : Nat → Nat} (sound : Sound exact owed base g) {x : Nat} {o : Owner} (here : g.own x = o)
    (different : o ≠ .user) {q k : Nat} {e : PTEntry} (leaf : UserLeaf g q k e) : ppn_to_addr e ≠ x := by
  rintro rfl
  exact different (here.symm.trans (sound.user leaf))

/-- Writing an entry of `r` is seen by no other process. -/
theorem aside_write_leaf {owed : Nat → Nat} (mirrors : Mirrors base 2 m g) (sound : Sound exact owed base g) (isRoot : g.own r = .root) (low : n < 2^19)
    (slot : leafSlot (g.tree r) n = some entry) (e : PTEntry) :
    Aside r m { m with mem := store64 m.mem entry e } g (setLeaf g r n e) ∧
      ∀ k, k ≠ n → space { m with mem := store64 m.mem entry e } (setLeaf g r n e) r k = space m g r k := by
  obtain ⟨_,b,owner,change⟩ := write_leaf mirrors isRoot (by omega) (by omega) slot e
  constructor
  · refine aside_of mirrors change ?_ (fun _ => .rfl) (fun _ _ => .rfl) (fun _ => .rfl) ?_ ?_ (le_refl _)
    · rintro p rfl
      exact private_of sound (by rw [owner]; simp) (by rw [owner]; simp) (by rw [owner]; simp)
    · intro q k other
      exact leaf_setLeaf_other g e (by rintro ⟨rfl,rfl⟩; exact other ⟨rfl,low⟩)
    · intro q v _ _
      rw [(setLeaf_tables _ _ _ _).1]
  · intro k other
    refine space_same isRoot (leaf_setLeaf_other g e fun both => other both.2) change ?_
    intro d leaf equal
    exact not_mapped sound owner (by simp) leaf equal

/-! ### Copy on write -/

/-- The entry that a copied page gets. -/
def copiedEntry (e : PTEntry) (f : Nat) : PTEntry :=
  clear_cow (new_leaf f (PTEFlags.new true true (PTEFlags.is_x (PTEntry.flags e)) true))

/-- The entry of a page that is made writable in place. -/
def ownedEntry (e : PTEntry) : PTEntry := clear_cow (set_w e true)

/-- What both ways to resolve a copy-on-write entry give. -/
structure Resolved (e e' : PTEntry) : Prop where
  valid : is_valid e' = true
  user : is_u e' = true
  r : is_r e' = true
  w : is_w e' = true
  x : is_x e' = is_x e
  cow : is_cow e' = false
  shape : Shape e'

theorem copiedEntry_resolved {e : PTEntry} {f : Nat} (bound : f < 2^56) : Resolved e (copiedEntry e f) := by
  obtain ⟨b0,b1,b2,b3,b4⟩ := PTEFlags.new_bits true true (PTEFlags.is_x (PTEntry.flags e)) true
  have low : ∀ {i}, i < 10 → (copiedEntry e f).getLsbD i =
      (PTEFlags.new true true (PTEFlags.is_x (PTEntry.flags e)) true).getLsbD i := by
    intro i inside
    rw [copiedEntry,getLsbD_clear_cow,getLsbD_new_leaf_low _ _ inside]
    have : i ≠ 62 := by omega
    simp [this]
  have high : ∀ {i}, 54 ≤ i → (copiedEntry e f).getLsbD i = false := by
    intro i above
    rw [copiedEntry,getLsbD_clear_cow,getLsbD_new_leaf_high _ bound above]
    rfl
  have readable : is_r (copiedEntry e f) = true := by rw [is_r_eq,low (by omega)]; exact b1
  have notCow : is_cow (copiedEntry e f) = false := by rw [is_cow_eq,high (by omega)]
  refine ⟨?_,?_,readable,?_,?_,notCow,.inl readable,fun _ => readable,?_,?_,fun i above _ => high above⟩
  · rw [is_valid_eq,low (by omega)]; exact b0
  · rw [is_u_eq,low (by omega)]; exact b4
  · rw [is_w_eq,low (by omega)]; exact b2
  · rw [is_x_eq,low (by omega),b3,PTEFlags.is_x_eq,getLsbD_flags,is_x_eq]
    simp
  · intro cow
    rw [notCow] at cow
    cases cow
  · intro i above below
    rw [low below]
    exact PTEFlags.new_high _ _ _ _ above

theorem ownedEntry_resolved {e : PTEntry} (valid : is_valid e = true) (user : is_u e = true) (shape : Shape e)
    (cow : is_cow e = true) : Resolved e (ownedEntry e) := by
  have bit : ∀ {i}, (ownedEntry e).getLsbD i = ((e.getLsbD i || decide (i = 2)) && decide (i ≠ 62)) := by
    intro i
    rw [ownedEntry,getLsbD_clear_cow,getLsbD_set_w]
  have readable : is_r (ownedEntry e) = true := by
    have := (shape.cow cow).1
    rw [is_r_eq] at this
    rw [is_r_eq,bit,this]
    rfl
  have notCow : is_cow (ownedEntry e) = false := by rw [is_cow_eq,bit]; simp
  refine ⟨?_,?_,readable,?_,?_,notCow,.inl readable,fun _ => readable,?_,?_,?_⟩
  · rw [is_valid_eq] at valid; rw [is_valid_eq,bit,valid]; rfl
  · rw [is_u_eq] at user; rw [is_u_eq,bit,user]; rfl
  · rw [is_w_eq,bit]; simp
  · rw [is_x_eq,is_x_eq,bit]; simp
  · intro yes
    rw [notCow] at yes
    cases yes
  · intro i above below
    rw [bit,shape.flags i above below]
    have : i ≠ 2 := by omega
    simp [this]
  · intro i above other
    rw [bit,shape.high i above other]
    have : i ≠ 2 := by omega
    simp [this]

/-- The page of a resolved entry over the same bytes. -/
theorem pageAt_resolved {mem mem' : Mem} {e e' : PTEntry} (valid : is_valid e = true) (user : is_u e = true)
    (cow : is_cow e = true) (shape : Shape e) (resolved : Resolved e e')
    (bytes : ∀ o : Fin 4096, mem' (ppn_to_addr e'+o) = mem (ppn_to_addr e+o)) : pageAt mem' e' = pageAt mem e := by
  rw [pageAt_user valid user,pageAt_user resolved.valid resolved.user]
  simp [resolved.r,resolved.w,resolved.x,(shape.cow cow).1,cow,bytes]

/-- What the resolution of a copy-on-write page of `r` does. -/
structure Resolves (exact : Bool) (base r n : Nat) (m m' : Mm) (g g' : Ledger) : Prop where
  good : Good exact base m' g'
  aside : Aside r m m' g g'
  same : space m' g' r = space m g r
  writable : ∃ e, UserLeaf g' r n e ∧ is_w e = true
  rest : ∀ k, k ≠ n → (g'.tree r).leaf k = (g.tree r).leaf k
  slots : ∀ k, leafSlot (g'.tree r) k = leafSlot (g.tree r) k
  refs : ∀ k d, k ≠ n → UserLeaf g r k d → g'.refs (ppn_to_addr d) = g.refs (ppn_to_addr d)
  cost : room g'+(if 1 < g.refs (ppn_to_addr ((g.tree r).leaf n)) then 1 else 0) = room g

theorem gt_one {c : Nat} (small : c < 2^32) : BitVec.ofNat 32 c > 1 ↔ 1 < c := by
  have one : (1 : BitVec 32).toNat = 1 := rfl
  rw [gt_iff_lt,BitVec.lt_def,one,BitVec.toNat_ofNat,Nat.mod_eq_of_lt small]

/-- A frame of one's own is made writable in place. -/
theorem handle_cow_fault_owned (good : Good exact base m g) {e : PTEntry} (leaf : UserLeaf g r n e) (cow : is_cow e = true)
    (slot : leafSlot (g.tree r) n = some entry) (last : g.refs (ppn_to_addr e) ≤ 1) :
    ∃ m' g', (handle_cow_fault entry).run m = .ok ⟨⟩ m' ∧ Resolves exact base r n m m' g g' := by
  have isUser := good.sound.user leaf
  have low := good.sound.low leaf
  have shape := good.sound.shape leaf
  have word : load64 m.mem entry = e := by rw [load_slot good.mirrors leaf.root leaf.inside slot]; exact leaf.entry
  have small := good.mirrors.pool.small (ppn_to_addr e) (by rw [isUser]; simp)
  have resolved := ownedEntry_resolved leaf.valid leaf.user shape cow
  obtain ⟨mirrors',b,owner,change⟩ := write_leaf good.mirrors leaf.root leaf.inside (by omega) slot (ownedEntry e)
  have names : ppn_to_addr (ownedEntry e) = ppn_to_addr e := by simp [ownedEntry]
  have sound' := good.sound.replace leaf resolved.valid resolved.user names resolved.shape (by
    intro _ q k c other same
    by_contra different
    have := good.sound.two leaf other same.symm different
    omega)
  obtain ⟨aside,others⟩ := aside_write_leaf good.mirrors good.sound leaf.root low slot (ownedEntry e)
  refine ⟨{ m with mem := store64 m.mem entry (ownedEntry e) },setLeaf g r n (ownedEntry e),?_,⟨mirrors',sound',good.settled⟩,aside,?_,
    ⟨ownedEntry e,⟨leaf.root,leaf.inside,leaf_setLeaf_self _ _ _ _,resolved.valid,resolved.user⟩,resolved.w⟩,
    fun k other => leaf_setLeaf_other g _ fun both => other both.2,fun k => leafSlot_setLeaf r k _,fun _ _ _ _ => rfl,?_⟩
  · unfold handle_cow_fault
    rw [run_seq (run_read _ _),word,run_seq (get_ref_spec good.mirrors.pool (by rw [isUser]; simp)),
      if_neg (by rw [gt_one small]; omega),run_seq (run_read _ _),word,run_seq (run_write _ _ _),run_seq (run_read _ _)]
    simp only [load64_store64,run_write,store64_store64]
    rfl
  · funext k
    by_cases here : k = n
    · subst here
      rw [space_low low,space_low low,leaf_setLeaf_self,leaf.entry]
      refine pageAt_resolved leaf.valid leaf.user cow shape resolved fun o => ?_
      rw [names]
      exact change.byte (ppn_to_addr_mod e) o.isLt (not_mapped good.sound owner (by simp) leaf)
    · exact others k here
  · rw [leaf.entry,if_neg (by omega)]
    rfl

/-- The entry of a leaf is not in a frame outside the page tables. -/
theorem word_kept {split : Nat} (mirrors : Mirrors base split m g) (isRoot : g.own r = .root) (inside : n < 2^27)
    (slot : leafSlot (g.tree r) n = some entry) {S : Nat → Prop} {mem : Mem} (change : Confined S m.mem mem)
    (spared : ∀ p, S p → (g.own p).structural = false) : load64 mem entry = load64 m.mem entry := by
  unfold leafSlot at slot
  obtain ⟨b,table,rfl⟩ := Option.map_eq_some_iff.mp slot
  have aligned := (mirrors.tables.tree r isRoot).l1_aligned (i := n/512) (by omega) table
  refine change.load aligned (by omega) fun inside' => ?_
  have part := spared b inside'
  rw [mirrors.tables.l1 r _ b isRoot (by omega) table,home1_structural] at part
  cases part

/-- The ledger after a shared frame was copied to `f`: the old frame loses a reference
    and the page has the new one. -/
def copied (g : Ledger) (r n f : Nat) (e : PTEntry) : Ledger :=
  (setLeaf ((g.take f).drop (ppn_to_addr e)) r n (copiedEntry e f)).give f .user

/-- An unused frame is not one with an owner. -/
theorem unused_ne {f x : Nat} (unused : g.own f = .free ∨ g.own f = .none) {o : Owner} (here : g.own x = o) (used : o ≠ .free)
    (held : o ≠ .none) : x ≠ f := by
  rintro rfl
  rw [here] at unused
  rcases unused with h | h
  · exact used h
  · exact held h

theorem take_own_other {f x : Nat} (other : x ≠ f) : (g.take f).own x = g.own x := by
  simp [Ledger.take,Function.update_of_ne other]

theorem take_refs_other {f x : Nat} (other : x ≠ f) : (g.take f).refs x = g.refs x := by
  simp [Ledger.take,Function.update_of_ne other]

theorem take_own_self {f : Nat} : (g.take f).own f = .temp := by simp [Ledger.take]

section copied
variable {f : Nat} {e : PTEntry}

theorem dropped_own (unused : g.own f = .free ∨ g.own f = .none) (isUser : g.own (ppn_to_addr e) = .user)
    (shared : 1 < g.refs (ppn_to_addr e)) : ((g.take f).drop (ppn_to_addr e)).own = (g.take f).own := by
  funext x
  rw [drop_own,if_neg]
  rintro ⟨_,one⟩
  rw [take_refs_other (unused_ne unused isUser (by simp) (by simp))] at one
  omega

theorem copied_own (unused : g.own f = .free ∨ g.own f = .none) (isUser : g.own (ppn_to_addr e) = .user)
    (shared : 1 < g.refs (ppn_to_addr e)) (x : Nat) : (copied g r n f e).own x = if x = f then .user else g.own x := by
  by_cases same : x = f
  · subst same
    simp [copied,Ledger.give]
  · have before : (copied g r n f e).own x = ((g.take f).drop (ppn_to_addr e)).own x := by
      simp [copied,Ledger.give,setLeaf,Function.update_of_ne same]
    rw [before,dropped_own unused isUser shared,take_own_other same,if_neg same]

theorem copied_keeps (unused : g.own f = .free ∨ g.own f = .none) (isUser : g.own (ppn_to_addr e) = .user)
    (shared : 1 < g.refs (ppn_to_addr e)) {x : Nat} {o : Owner} (used : o ≠ .free) (held : o ≠ .none) (plain : o ≠ .user) :
    (copied g r n f e).own x = o ↔ g.own x = o := by
  rw [copied_own unused isUser shared]
  by_cases same : x = f
  · rw [if_pos same]
    exact ⟨fun h => absurd h.symm plain,fun h => absurd same (unused_ne unused h used held)⟩
  · rw [if_neg same]

theorem copied_leaf {q k : Nat} (other : ¬ (q = r ∧ k = n)) : ((copied g r n f e).tree q).leaf k = (g.tree q).leaf k := by
  rw [copied,give_tree,leaf_setLeaf_other _ _ other,drop_tree]
  rfl

theorem copied_slot (k : Nat) : leafSlot ((copied g r n f e).tree r) k = leafSlot (g.tree r) k := by
  rw [copied,give_tree,leafSlot_setLeaf,drop_tree]
  rfl

theorem copied_l2 (q : Nat) : ((copied g r n f e).tree q).l2 = (g.tree q).l2 := by
  rw [copied,give_tree,(setLeaf_tables _ _ _ _).1,drop_tree]
  rfl

theorem copied_leaf_self : ((copied g r n f e).tree r).leaf n = copiedEntry e f := by
  rw [copied,give_tree,leaf_setLeaf_self]

theorem copied_next : g.next ≤ (copied g r n f e).next := by
  rw [copied,give_next,setLeaf_next,drop_next]
  simp only [Ledger.take]
  split <;> omega

theorem copied_room (unused : g.own f = .free ∨ g.own f = .none) (isUser : g.own (ppn_to_addr e) = .user)
    (shared : 1 < g.refs (ppn_to_addr e)) : room (copied g r n f e) = room (g.take f) := by
  have kept : (g.take f).drop (ppn_to_addr e) = (g.take f).count (ppn_to_addr e) ((g.take f).refs (ppn_to_addr e)-1) := by
    unfold Ledger.drop
    rw [if_neg]
    rw [take_refs_other (unused_ne unused isUser (by simp) (by simp))]
    omega
  unfold copied
  rw [kept]
  rfl

theorem copied_refs {x : Nat} (other : x ≠ f) (fresh : x ≠ ppn_to_addr e) : (copied g r n f e).refs x = g.refs x := by
  rw [copied,give_refs,setLeaf_refs,drop_refs,if_neg fresh,take_refs_other other]

theorem ppn_copiedEntry (aligned : f%4096 = 0) (bound : f < 2^56) : ppn_to_addr (copiedEntry e f) = f := by
  rw [copiedEntry,ppn_clear_cow,ppn_new_leaf _ aligned bound]

theorem copied_sound (sound : Sound exact nothing base g) {m' : Mm} (after : Pool base m' (g.take f))
    (unused : g.own f = .free ∨ g.own f = .none) (leaf : UserLeaf g r n e) (shared : 1 < g.refs (ppn_to_addr e))
    (aligned : f%4096 = 0) (bound : f < 2^56) : Sound exact nothing base (copied g r n f e) := by
  have isUser := sound.user leaf
  have freshRoot := unused_ne unused leaf.root (by simp) (by simp)
  have resolved := copiedEntry_resolved (e := e) bound
  have own := dropped_own unused isUser shared
  have leaf' : UserLeaf (g.take f) r n e := by
    refine ⟨?_,leaf.inside,leaf.entry,leaf.valid,leaf.user⟩
    rw [take_own_other freshRoot]
    exact leaf.root
  have root' : ((g.take f).drop (ppn_to_addr e)).own r = .root := by rw [own]; exact leaf'.root
  have temp : ((g.take f).drop (ppn_to_addr e)).own f = .temp := by rw [own]; exact take_own_self
  have started : base+4096 ≤ ((g.take f).drop (ppn_to_addr e)).next := by
    rw [drop_next]
    have := ((after.owned f).mp (by rw [take_own_self]; simp)).2.2
    have := ((after.owned f).mp (by rw [take_own_self]; simp)).2.1
    have := after.next_aligned
    have := after.base_aligned
    omega
  have mapped := ((sound.take unused).unmap leaf' rfl).map (f := f) (r := r) (n := n) (e := copiedEntry e f)
    (by rw [setLeaf_own]; exact temp) rfl (by rw [setLeaf_next]; exact started) (by rw [setLeaf_own]; exact root')
    (sound.low leaf) (by
      intro d here
      have := userLeaf_setLeaf_self here
      subst this
      exact absurd here.valid (by decide)) resolved.valid resolved.user (ppn_copiedEntry aligned bound) resolved.shape
  rw [setLeaf_give,setLeaf_setLeaf] at mapped
  exact mapped

/-- The run that copies a shared frame. -/
theorem copied_run (good : Good exact base m g) (leaf : UserLeaf g r n e) (slot : leafSlot (g.tree r) n = some entry)
    (shared : 1 < g.refs (ppn_to_addr e)) {m1 : Mm} (taken : alloc_frame.run m = .ok (some f) m1) (mem : m1.mem = m.mem)
    (unused : g.own f = .free ∨ g.own f = .none) (aligned : f%4096 = 0) (after : Mirrors base 2 m1 (g.take f)) :
    ∃ m' b, (handle_cow_fault entry).run m = .ok ⟨⟩ m' ∧ Mirrors base 2 m' (copied g r n f e) ∧ g.own b = .l1 r (n/512) ∧
      Confined (fun p => p = f ∨ p = b) m.mem m'.mem ∧ ∀ o, o < 4096 → m'.mem (f+o) = m.mem (ppn_to_addr e+o) := by
  have isUser := good.sound.user leaf
  have low := good.sound.low leaf
  have held : g.own (ppn_to_addr e) ≠ .none := by rw [isUser]; simp
  have word : load64 m.mem entry = e := by rw [load_slot good.mirrors leaf.root leaf.inside slot]; exact leaf.entry
  have freshRoot := unused_ne unused leaf.root (by simp) (by simp)
  have freshOld := unused_ne unused isUser (by simp) (by simp)
  have refs1 := take_refs_other (g := g) freshOld
  have isUser1 : (g.take f).own (ppn_to_addr e) = .user := by rw [take_own_other freshOld]; exact isUser
  have own := dropped_own unused isUser shared
  -- The copy goes to the new frame, which nobody sees yet.
  have copiedTo := after.frame (confined_copy m1.mem (p := f) (ppn_to_addr e) aligned) (by
    rintro p rfl
    rw [take_own_self]
    exact ⟨by simp,rfl⟩)
  obtain ⟨c,m2,runDec,dropped,changeDec⟩ := copiedTo.dec (f := ppn_to_addr e) (by rw [isUser1]; simp) (by rw [isUser1]; simp)
    (by rw [isUser1]; rfl) (by rw [refs1]; omega)
  have still : m2.mem = copy m.mem (ppn_to_addr e) f 4096 := by
    rw [← mem]
    funext a
    exact changeDec a (by rintro ⟨_,one⟩; rw [refs1] at one; omega)
  have root2 : ((g.take f).drop (ppn_to_addr e)).own r = .root := by rw [own,take_own_other freshRoot]; exact leaf.root
  have slot2 : leafSlot (((g.take f).drop (ppn_to_addr e)).tree r) n = some entry := by rw [drop_tree]; exact slot
  obtain ⟨written,b,owner2,changeEntry⟩ := write_leaf dropped root2 leaf.inside (by omega) slot2 (copiedEntry e f)
  have otherB : b ≠ f := by
    rintro rfl
    rw [own,take_own_self] at owner2
    cases owner2
  have owner : g.own b = .l1 r (n/512) := by rwa [own,take_own_other otherB] at owner2
  have changeCopy : Confined (· = f) m.mem m2.mem := by
    rw [still]
    exact confined_copy m.mem (ppn_to_addr e) aligned
  have word2 : load64 m2.mem entry = e := by
    rw [word_kept good.mirrors leaf.root leaf.inside slot changeCopy ?_,word]
    rintro p rfl
    rcases unused with h | h <;> rw [h] <;> rfl
  have temp : (setLeaf ((g.take f).drop (ppn_to_addr e)) r n (copiedEntry e f)).own f = .temp := by
    rw [setLeaf_own,own,take_own_self]
  refine ⟨{ m2 with mem := store64 m2.mem entry (copiedEntry e f) },b,?_,
    written.give (by rw [temp]; simp) (by rw [temp]; simp) (by rw [temp]; rfl) (by simp) (by simp) rfl,owner,
    (changeCopy.mono fun _ h => .inl h).trans (changeEntry.mono fun _ h => .inr h),?_⟩
  · unfold handle_cow_fault
    rw [run_seq (run_read _ _),word,run_seq (get_ref_spec good.mirrors.pool held),
      if_pos ((gt_one (good.mirrors.pool.small _ held)).mpr shared),run_seq taken]
    dsimp only
    rw [run_seq (run_copy _ _ _ _),run_seq runDec,run_seq (run_read _ _),word2,run_seq (run_write _ _ _),
      run_seq (run_read _ _)]
    simp only [load64_store64,run_write,store64_store64]
    rfl
  · intro o inside
    have kept : store64 m2.mem entry (copiedEntry e f) (f+o) = m2.mem (f+o) := changeEntry.byte aligned inside otherB.symm
    dsimp only
    rw [kept,still]
    exact copy_on inside

end copied

/-- A shared frame is copied. -/
theorem handle_cow_fault_shared (good : Good exact base m g) {e : PTEntry} (leaf : UserLeaf g r n e) (cow : is_cow e = true)
    (slot : leafSlot (g.tree r) n = some entry) (shared : 1 < g.refs (ppn_to_addr e)) :
    (room g = 0 ∧ (handle_cow_fault entry).run m = .error (.panic "COW: alloc_frame failed") m) ∨
    ∃ m' g', (handle_cow_fault entry).run m = .ok ⟨⟩ m' ∧ Resolves exact base r n m m' g g' := by
  have isUser := good.sound.user leaf
  have low := good.sound.low leaf
  have held : g.own (ppn_to_addr e) ≠ .none := by rw [isUser]; simp
  rcases good.mirrors.alloc with ⟨full,run⟩ | ⟨f,m1,run,mem,unused,aligned,_,high,after,less⟩
  · left
    have word : load64 m.mem entry = e := by rw [load_slot good.mirrors leaf.root leaf.inside slot]; exact leaf.entry
    refine ⟨full,?_⟩
    unfold handle_cow_fault
    rw [run_seq (run_read _ _),word,run_seq (get_ref_spec good.mirrors.pool held),
      if_pos ((gt_one (good.mirrors.pool.small _ held)).mpr shared),run_seq run]
    rfl
  right
  have bound : f < 2^56 := by
    have : RAM_END = 0x88000000 := rfl
    omega
  have resolved := copiedEntry_resolved (e := e) bound
  obtain ⟨m',b,runs,mirrors',owner,change,bytes⟩ := copied_run good leaf slot shared run mem unused aligned after
  have untouched : ∀ {q k d}, UserLeaf g q k d → ¬ (ppn_to_addr d = f ∨ ppn_to_addr d = b) := by
    rintro q k d here (same | same)
    · exact unused_ne unused (good.sound.user here) (by simp) (by simp) same
    · exact not_mapped good.sound owner (by simp) here same
  have settled : ∀ x, (copied g r n f e).own x ≠ .temp := fun x here =>
    good.settled x ((copied_keeps unused isUser shared (by simp) (by simp) (by simp)).mp here)
  refine ⟨m',copied g r n f e,runs,
    ⟨mirrors',copied_sound good.sound after.pool unused leaf shared aligned bound,settled⟩,
    ?_,?_,?_,fun k other => copied_leaf fun both => other both.2,fun k => copied_slot k,?_,?_⟩
  · refine aside_of good.mirrors change ?_ (fun x => copied_keeps unused isUser shared (by simp) (by simp) (by simp))
      (fun x s => copied_keeps unused isUser shared (by simp) (by simp) (by simp))
      (fun x => copied_keeps unused isUser shared (by simp) (by simp) (by simp)) ?_ ?_ copied_next
    · rintro p (rfl | rfl)
      · rcases unused with h | h <;> exact private_of good.sound (by rw [h]; simp) (by rw [h]; simp) (by rw [h]; simp)
      · exact private_of good.sound (by rw [owner]; simp) (by rw [owner]; simp) (by rw [owner]; simp)
    · intro q k other
      exact copied_leaf (by rintro ⟨rfl,rfl⟩; exact other ⟨rfl,low⟩)
    · intro q v _ _
      rw [copied_l2]
  · funext k
    by_cases here : k = n
    · subst here
      rw [space_low low,space_low low,copied_leaf_self,leaf.entry]
      refine pageAt_resolved leaf.valid leaf.user cow (good.sound.shape leaf) resolved fun o => ?_
      rw [ppn_copiedEntry aligned bound]
      exact bytes o o.isLt
    · exact space_same leaf.root (copied_leaf fun both => here both.2) change fun d => untouched
  · refine ⟨copiedEntry e f,⟨?_,leaf.inside,copied_leaf_self,resolved.valid,resolved.user⟩,resolved.w⟩
    exact (copied_keeps unused isUser shared (by simp) (by simp) (by simp)).mpr leaf.root
  · intro k d other mapped
    refine copied_refs (unused_ne unused (good.sound.user mapped) (by simp) (by simp)) fun same => ?_
    exact other (good.sound.page mapped leaf same)
  · rw [leaf.entry,if_pos shared,copied_room unused isUser shared,less]

/-- `handle_cow_fault` makes a page writable that only its process maps, unless there
    is no frame for the copy. -/
theorem handle_cow_fault_spec (good : Good exact base m g) {e : PTEntry} (leaf : UserLeaf g r n e) (cow : is_cow e = true)
    (slot : leafSlot (g.tree r) n = some entry) :
    ((room g = 0 ∧ 1 < g.refs (ppn_to_addr e)) ∧ (handle_cow_fault entry).run m = .error (.panic "COW: alloc_frame failed") m) ∨
    ∃ m' g', (handle_cow_fault entry).run m = .ok ⟨⟩ m' ∧ Resolves exact base r n m m' g g' := by
  by_cases shared : 1 < g.refs (ppn_to_addr e)
  · rcases handle_cow_fault_shared good leaf cow slot shared with ⟨full,run⟩ | done
    · exact .inl ⟨⟨full,shared⟩,run⟩
    · exact .inr done
  · exact .inr (handle_cow_fault_owned good leaf cow slot (by omega))

end

end Unit00.Pages
