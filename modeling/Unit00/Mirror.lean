import Unit00.Ownership

/-!
The page tables of the ledger and of memory. `Tables` says that every root has
its tree in memory and that each table belongs to one place of one tree;
`Mirror` puts it together with the allocator. From here on an operation on
memory is described by what it does to the ledger.
-/
namespace Unit00.Mirror
open Unit00.Memory Unit00.Execution Unit00.Frame Unit00.Paging Unit00.Paging.PTEntry Unit00.Trees Unit00.Ownership

/-- The owner of the table at index `v` of a root. -/
def home2 (split r v : Nat) : Owner := if v < split then .l2 r v else .kernel

/-- The owner of the table of the last level at index `i` under a root. -/
def home1 (split r i : Nat) : Owner := if i < split*512 then .l1 r i else .kernel

/-- Root indices below `split` belong to the root alone, the others to the kernel. -/
structure Tables (split : Nat) (mem : Mem) (g : Ledger) : Prop where
  aligned : ∀ r, g.own r = .root → r%4096 = 0
  tree : ∀ r, g.own r = .root → TreeAt true mem r (g.tree r)
  l2 : ∀ r v a, g.own r = .root → v < 512 → (g.tree r).l2 v = some a → g.own a = home2 split r v
  l1 : ∀ r i b, g.own r = .root → i < 2^18 → (g.tree r).l1 i = some b → g.own b = home1 split r i
  l2_back : ∀ a r v, g.own a = .l2 r v → g.own r = .root ∧ v < split ∧ (g.tree r).l2 v = some a
  l1_back : ∀ b r i, g.own b = .l1 r i → g.own r = .root ∧ i < split*512 ∧ (g.tree r).l1 i = some b

theorem home2_structural (split r v : Nat) : (home2 split r v).structural = true := by
  unfold home2; split <;> rfl

theorem home1_structural (split r i : Nat) : (home1 split r i).structural = true := by
  unfold home1; split <;> rfl

theorem home2_ne_root (split r v : Nat) : home2 split r v ≠ .root := by
  unfold home2; split <;> simp

theorem home1_ne_root (split r i : Nat) : home1 split r i ≠ .root := by
  unfold home1; split <;> simp

theorem home2_eq_l1 {split r v r' i : Nat} : home2 split r v ≠ .l1 r' i := by
  unfold home2; split <;> simp

theorem home1_eq_l2 {split r i r' v : Nat} : home1 split r i ≠ .l2 r' v := by
  unfold home1; split <;> simp

theorem home1_eq_l1 {split r i r' j : Nat} (same : home1 split r i = .l1 r' j) : r = r' ∧ i = j := by
  unfold home1 at same
  split at same
  · simpa using same
  · cases same

theorem home2_eq_l2 {split r v r' w : Nat} (same : home2 split r v = .l2 r' w) : r = r' ∧ v = w := by
  unfold home2 at same
  split at same
  · simpa using same
  · cases same

section
variable {split : Nat} {mem mem' : Mem} {g : Ledger}

/-- A change of memory outside all page tables. -/
theorem Tables.frame (tables : Tables split mem g) {S : Nat → Prop} (change : Confined S mem mem')
    (spared : ∀ p, S p → (g.own p).structural = false) : Tables split mem' g := by
  have safe : ∀ {p : Nat}, (g.own p).structural = true → ¬ S p := by
    intro p part inside
    rw [spared p inside] at part
    cases part
  refine { tables with tree := ?_ }
  intro r isRoot
  refine (tables.tree r isRoot).frame change (tables.aligned r isRoot) (safe (by rw [isRoot]; rfl)) ?_ ?_
  · intro v a low table
    exact safe (by rw [tables.l2 r v a isRoot low table]; exact home2_structural split r v)
  · intro i b low table
    exact safe (by rw [tables.l1 r i b isRoot low table]; exact home1_structural split r i)

/-- New owners for frames outside all page tables. -/
theorem Tables.reown (tables : Tables split mem g) {g' : Ledger} (trees : g'.tree = g.tree)
    (kept : ∀ x, (g.own x).structural = true ∨ (g'.own x).structural = true → g'.own x = g.own x) :
    Tables split mem g' := by
  have forward : ∀ {x : Nat} {o : Owner}, o.structural = true → g.own x = o → g'.own x = o := by
    intro x o part here
    rw [kept x (.inl (by rw [here]; exact part))]
    exact here
  have backward : ∀ {x : Nat} {o : Owner}, o.structural = true → g'.own x = o → g.own x = o := by
    intro x o part here
    rw [← kept x (.inr (by rw [here]; exact part))]
    exact here
  refine ⟨?_,?_,?_,?_,?_,?_⟩
  · intro r isRoot
    exact tables.aligned r (backward rfl isRoot)
  · intro r isRoot
    rw [trees]
    exact tables.tree r (backward rfl isRoot)
  · intro r v a isRoot low table
    rw [trees] at table
    exact forward (home2_structural split r v) (tables.l2 r v a (backward rfl isRoot) low table)
  · intro r i b isRoot low table
    rw [trees] at table
    exact forward (home1_structural split r i) (tables.l1 r i b (backward rfl isRoot) low table)
  · intro a r v here
    obtain ⟨isRoot,low,table⟩ := tables.l2_back a r v (backward rfl here)
    rw [trees]
    exact ⟨forward rfl isRoot,low,table⟩
  · intro b r i here
    obtain ⟨isRoot,low,table⟩ := tables.l1_back b r i (backward rfl here)
    rw [trees]
    exact ⟨forward rfl isRoot,low,table⟩

end

/-- A new value for one leaf of one root. -/
def setLeaf (g : Ledger) (r n : Nat) (e : PTEntry) : Ledger :=
  { g with tree := Function.update g.tree r { g.tree r with leaf := Function.update (g.tree r).leaf n e } }

@[simp] theorem setLeaf_own (g : Ledger) (r n : Nat) (e : PTEntry) : (setLeaf g r n e).own = g.own := rfl

@[simp] theorem setLeaf_refs (g : Ledger) (r n : Nat) (e : PTEntry) : (setLeaf g r n e).refs = g.refs := rfl

@[simp] theorem setLeaf_next (g : Ledger) (r n : Nat) (e : PTEntry) : (setLeaf g r n e).next = g.next := rfl

theorem setLeaf_tables {g : Ledger} (n q k : Nat) (e : PTEntry) :
    ((setLeaf g q n e).tree k).l2 = (g.tree k).l2 ∧ ((setLeaf g q n e).tree k).l1 = (g.tree k).l1 := by
  by_cases same : k = q
  · subst same
    simp [setLeaf]
  · simp [setLeaf,Function.update_of_ne same]

/-- A temp frame that becomes the table at index `v` of a root. -/
def attach2 (g : Ledger) (r v f : Nat) : Ledger :=
  { g with
    own := Function.update g.own f (.l2 r v)
    tree := Function.update g.tree r { g.tree r with l2 := Function.update (g.tree r).l2 v (some f) } }

/-- A temp frame that becomes the last-level table at index `i` of a root. -/
def attach1 (g : Ledger) (r i f : Nat) : Ledger :=
  { g with
    own := Function.update g.own f (.l1 r i)
    tree := Function.update g.tree r { g.tree r with l1 := Function.update (g.tree r).l1 i (some f) } }

section
variable {split : Nat} {mem mem' : Mem} {g : Ledger}

theorem Tables.set_leaf (tables : Tables split mem g) {r n b : Nat} (isRoot : g.own r = .root) (inside : n < 2^27)
    (mine : n < split*2^18) (table : (g.tree r).l1 (n/512) = some b) (e : PTEntry) :
    Tables split (store64 mem (entry_at b (n%512)) e) (setLeaf g r n e) := by
  have owner : g.own b = .l1 r (n/512) := by
    rw [tables.l1 r _ b isRoot (by omega) table,home1,if_pos (by omega)]
  have alignedB := (tables.tree r isRoot).l1_aligned (by omega) table
  have change := confined_store64 mem (p := b) (o := 8*(n%512)) e alignedB (by omega)
  have ne : ∀ {x : Nat} {o : Owner}, g.own x = o → o ≠ .l1 r (n/512) → x ≠ b := by
    rintro x o here different rfl
    exact different (here.symm.trans owner)
  refine ⟨tables.aligned,?_,?_,?_,?_,?_⟩
  · intro q isRootQ
    have isRootQ' : g.own q = .root := isRootQ
    by_cases same : q = r
    · subst same
      simp only [setLeaf,Function.update_self]
      refine (tables.tree q isRootQ').set_leaf (tables.aligned q isRootQ') inside table (ne isRootQ' (by simp)) ?_ ?_ e
      · intro v a low here
        exact ne (tables.l2 q v a isRootQ' low here) home2_eq_l1
      · intro i low here
        have := tables.l1 q i b isRootQ' low here
        rw [owner] at this
        exact (home1_eq_l1 this.symm).2
    · simp only [setLeaf,Function.update_of_ne same]
      refine (tables.tree q isRootQ').frame change (tables.aligned q isRootQ') (ne isRootQ' (by simp)) ?_ ?_
      · intro v a low here
        exact ne (tables.l2 q v a isRootQ' low here) home2_eq_l1
      · intro i c low here
        exact ne (tables.l1 q i c isRootQ' low here) fun equal => same (home1_eq_l1 equal).1
  · intro q v a isRootQ low here
    refine tables.l2 q v a isRootQ low ?_
    by_cases same : q = r
    · subst same; simpa [setLeaf] using here
    · simpa [setLeaf,Function.update_of_ne same] using here
  · intro q i c isRootQ low here
    refine tables.l1 q i c isRootQ low ?_
    by_cases same : q = r
    · subst same; simpa [setLeaf] using here
    · simpa [setLeaf,Function.update_of_ne same] using here
  · intro a q v here
    obtain ⟨isRootQ,low,place⟩ := tables.l2_back a q v here
    refine ⟨isRootQ,low,?_⟩
    by_cases same : q = r
    · subst same; simpa [setLeaf] using place
    · simpa [setLeaf,Function.update_of_ne same] using place
  · intro c q i here
    obtain ⟨isRootQ,low,place⟩ := tables.l1_back c q i here
    refine ⟨isRootQ,low,?_⟩
    by_cases same : q = r
    · subst same; simpa [setLeaf] using place
    · simpa [setLeaf,Function.update_of_ne same] using place

theorem Tables.attach_l2 (tables : Tables split mem g) {r v f : Nat} (isRoot : g.own r = .root) (inside : v < 512)
    (mine : v < split) (missing : (g.tree r).l2 v = none) (outside : (g.own f).structural = false) (frame : f%4096 = 0)
    (bound : f < 2^56) (zero : ∀ j, j < 512 → load64 mem (entry_at f j) = 0) :
    Tables split (store64 mem (entry_at r v) (new_table f)) (attach2 g r v f) := by
  have alignedR := tables.aligned r isRoot
  have change := confined_store64 mem (p := r) (o := 8*v) (new_table f) alignedR (by omega)
  have fresh : ∀ {x : Nat}, (g.own x).structural = true → x ≠ f := by
    rintro x part rfl
    rw [outside] at part
    cases part
  have kept : ∀ {x : Nat} {o : Owner}, o.structural = true → g.own x = o → (attach2 g r v f).own x = o := by
    intro x o part here
    simp only [attach2,Function.update_of_ne (fresh (x := x) (by rw [here]; exact part))]
    exact here
  have oldRoot : ∀ {q : Nat}, (attach2 g r v f).own q = .root → g.own q = .root := by
    intro q here
    by_cases same : q = f
    · subst same; simp [attach2] at here
    · simpa [attach2,Function.update_of_ne same] using here
  have notRoot : ∀ {x : Nat} {o : Owner}, g.own x = o → o ≠ .root → x ≠ r := by
    rintro x o here different rfl
    exact different (here.symm.trans isRoot)
  refine ⟨fun q here => tables.aligned q (oldRoot here),?_,?_,?_,?_,?_⟩
  · intro q here
    have isRootQ := oldRoot here
    by_cases same : q = r
    · subst same
      simp only [attach2,Function.update_self]
      refine (tables.tree q isRootQ).attach_l2 alignedR inside missing frame bound zero
        (fresh (by rw [isRootQ]; rfl)) ?_ ?_
      · intro w a low table
        exact notRoot (tables.l2 q w a isRootQ low table) (home2_ne_root _ _ _)
      · intro i b low table
        exact notRoot (tables.l1 q i b isRootQ low table) (home1_ne_root _ _ _)
    · simp only [attach2,Function.update_of_ne same]
      refine (tables.tree q isRootQ).frame change (tables.aligned q isRootQ) same ?_ ?_
      · intro w a low table
        exact notRoot (tables.l2 q w a isRootQ low table) (home2_ne_root _ _ _)
      · intro i b low table
        exact notRoot (tables.l1 q i b isRootQ low table) (home1_ne_root _ _ _)
  · intro q w a here low table
    have isRootQ := oldRoot here
    by_cases same : q = r
    · subst same
      simp only [attach2,Function.update_self] at table
      by_cases place : w = v
      · subst place
        simp only [Function.update_self,Option.some.injEq] at table
        subst table
        simp [attach2,home2,mine]
      · simp only [Function.update_of_ne place] at table
        exact kept (home2_structural _ _ _) (tables.l2 q w a isRootQ low table)
    · simp only [attach2,Function.update_of_ne same] at table
      exact kept (home2_structural _ _ _) (tables.l2 q w a isRootQ low table)
  · intro q i b here low table
    have isRootQ := oldRoot here
    refine kept (home1_structural _ _ _) (tables.l1 q i b isRootQ low ?_)
    by_cases same : q = r
    · subst same; simpa [attach2] using table
    · simpa [attach2,Function.update_of_ne same] using table
  · intro a q w here
    by_cases new : a = f
    · subst new
      simp only [attach2,Function.update_self,Owner.l2.injEq] at here
      obtain ⟨rfl,rfl⟩ := here
      exact ⟨kept rfl isRoot,mine,by simp [attach2]⟩
    · have old : g.own a = .l2 q w := by simpa [attach2,Function.update_of_ne new] using here
      obtain ⟨isRootQ,low,place⟩ := tables.l2_back a q w old
      refine ⟨kept rfl isRootQ,low,?_⟩
      by_cases same : q = r
      · subst same
        have other : w ≠ v := by
          rintro rfl
          rw [missing] at place
          cases place
        simpa [attach2,Function.update_of_ne other] using place
      · simpa [attach2,Function.update_of_ne same] using place
  · intro b q i here
    have old : g.own b = .l1 q i := by
      by_cases new : b = f
      · subst new; simp [attach2] at here
      · simpa [attach2,Function.update_of_ne new] using here
    obtain ⟨isRootQ,low,place⟩ := tables.l1_back b q i old
    refine ⟨kept rfl isRootQ,low,?_⟩
    by_cases same : q = r
    · subst same; simpa [attach2] using place
    · simpa [attach2,Function.update_of_ne same] using place

theorem Tables.attach_l1 (tables : Tables split mem g) {r i a f : Nat} (isRoot : g.own r = .root) (inside : i < 2^18)
    (mine : i < split*512) (parent : (g.tree r).l2 (i/512) = some a) (missing : (g.tree r).l1 i = none)
    (outside : (g.own f).structural = false) (frame : f%4096 = 0) (bound : f < 2^56)
    (zero : ∀ j, j < 512 → load64 mem (entry_at f j) = 0) :
    Tables split (store64 mem (entry_at a (i%512)) (new_table f)) (attach1 g r i f) := by
  have owner : g.own a = .l2 r (i/512) := by
    rw [tables.l2 r _ a isRoot (by omega) parent,home2,if_pos (by omega)]
  have alignedA := (tables.tree r isRoot).l2_aligned (by omega) parent
  have change := confined_store64 mem (p := a) (o := 8*(i%512)) (new_table f) alignedA (by omega)
  have fresh : ∀ {x : Nat}, (g.own x).structural = true → x ≠ f := by
    rintro x part rfl
    rw [outside] at part
    cases part
  have kept : ∀ {x : Nat} {o : Owner}, o.structural = true → g.own x = o → (attach1 g r i f).own x = o := by
    intro x o part here
    simp only [attach1,Function.update_of_ne (fresh (x := x) (by rw [here]; exact part))]
    exact here
  have oldRoot : ∀ {q : Nat}, (attach1 g r i f).own q = .root → g.own q = .root := by
    intro q here
    by_cases same : q = f
    · subst same; simp [attach1] at here
    · simpa [attach1,Function.update_of_ne same] using here
  have ne : ∀ {x : Nat} {o : Owner}, g.own x = o → o ≠ .l2 r (i/512) → x ≠ a := by
    rintro x o here different rfl
    exact different (here.symm.trans owner)
  refine ⟨fun q here => tables.aligned q (oldRoot here),?_,?_,?_,?_,?_⟩
  · intro q here
    have isRootQ := oldRoot here
    by_cases same : q = r
    · subst same
      simp only [attach1,Function.update_self]
      refine (tables.tree q isRootQ).attach_l1 (tables.aligned q isRootQ) inside parent missing frame bound zero
        (fresh (by rw [owner]; rfl)) (ne isRootQ (by simp)) ?_ ?_
      · intro w low table
        have := tables.l2 q w a isRootQ low table
        rw [owner] at this
        exact (home2_eq_l2 this.symm).2
      · intro j b low table
        exact ne (tables.l1 q j b isRootQ low table) home1_eq_l2
    · simp only [attach1,Function.update_of_ne same]
      refine (tables.tree q isRootQ).frame change (tables.aligned q isRootQ) (ne isRootQ (by simp)) ?_ ?_
      · intro w c low table
        exact ne (tables.l2 q w c isRootQ low table) fun equal => same (home2_eq_l2 equal).1
      · intro j b low table
        exact ne (tables.l1 q j b isRootQ low table) home1_eq_l2
  · intro q w c here low table
    have isRootQ := oldRoot here
    refine kept (home2_structural _ _ _) (tables.l2 q w c isRootQ low ?_)
    by_cases same : q = r
    · subst same; simpa [attach1] using table
    · simpa [attach1,Function.update_of_ne same] using table
  · intro q j b here low table
    have isRootQ := oldRoot here
    by_cases same : q = r
    · subst same
      simp only [attach1,Function.update_self] at table
      by_cases place : j = i
      · subst place
        simp only [Function.update_self,Option.some.injEq] at table
        subst table
        simp [attach1,home1,mine]
      · simp only [Function.update_of_ne place] at table
        exact kept (home1_structural _ _ _) (tables.l1 q j b isRootQ low table)
    · simp only [attach1,Function.update_of_ne same] at table
      exact kept (home1_structural _ _ _) (tables.l1 q j b isRootQ low table)
  · intro c q w here
    have old : g.own c = .l2 q w := by
      by_cases new : c = f
      · subst new; simp [attach1] at here
      · simpa [attach1,Function.update_of_ne new] using here
    obtain ⟨isRootQ,low,place⟩ := tables.l2_back c q w old
    refine ⟨kept rfl isRootQ,low,?_⟩
    by_cases same : q = r
    · subst same; simpa [attach1] using place
    · simpa [attach1,Function.update_of_ne same] using place
  · intro b q j here
    by_cases new : b = f
    · subst new
      simp only [attach1,Function.update_self,Owner.l1.injEq] at here
      obtain ⟨rfl,rfl⟩ := here
      exact ⟨kept rfl isRoot,mine,by simp [attach1]⟩
    · have old : g.own b = .l1 q j := by simpa [attach1,Function.update_of_ne new] using here
      obtain ⟨isRootQ,low,place⟩ := tables.l1_back b q j old
      refine ⟨kept rfl isRootQ,low,?_⟩
      by_cases same : q = r
      · subst same
        have other : j ≠ i := by
          rintro rfl
          rw [missing] at place
          cases place
        simpa [attach1,Function.update_of_ne other] using place
      · simpa [attach1,Function.update_of_ne same] using place

end

/-- A temp frame that becomes a root: an empty user half, and the kernel half of the
    root `src`. -/
def newRoot (split : Nat) (g : Ledger) (src f : Nat) : Ledger :=
  { g with
    own := Function.update g.own f .root
    tree := Function.update g.tree f {
      l2 := fun v => if v < split then none else (g.tree src).l2 v
      l1 := fun i => if i < split*512 then none else (g.tree src).l1 i
      leaf := fun n => if n < split*2^18 then 0 else (g.tree src).leaf n } }

/-- The owner of a frame when the tables of the root `r` are given up. -/
def retired (r x : Nat) : Owner → Owner
  | .root => if x = r then .temp else .root
  | .l2 q v => if q = r then .temp else .l2 q v
  | .l1 q i => if q = r then .temp else .l1 q i
  | o => o

/-- The ledger in which the root `r` and its tables are no page table any more. -/
def retire (g : Ledger) (r : Nat) : Ledger := { g with own := fun x => retired r x (g.own x) }

/-- The owner of a frame when the upper half of the only root becomes the kernel's. -/
def frozen (split : Nat) : Owner → Owner
  | .l2 q v => if v < split then .l2 q v else .kernel
  | .l1 q i => if i < split*512 then .l1 q i else .kernel
  | o => o

def freeze (split : Nat) (g : Ledger) : Ledger := { g with own := fun x => frozen split (g.own x) }

section
variable {split : Nat} {mem mem' : Mem} {g : Ledger}

theorem Tables.new_root (tables : Tables split mem g) {src f : Nat} (source : split < 512 → g.own src = .root)
    (outside : (g.own f).structural = false) (frame : f%4096 = 0)
    (low : ∀ v, v < split → v < 512 → load64 mem (entry_at f v) = 0)
    (high : ∀ v, split ≤ v → v < 512 → load64 mem (entry_at f v) = load64 mem (entry_at src v)) :
    Tables split mem (newRoot split g src f) := by
  have fresh : ∀ {x : Nat}, (g.own x).structural = true → x ≠ f := by
    rintro x part rfl
    rw [outside] at part
    cases part
  have kept : ∀ {x : Nat} {o : Owner}, o.structural = true → g.own x = o → (newRoot split g src f).own x = o := by
    intro x o part here
    simp only [newRoot,Function.update_of_ne (fresh (x := x) (by rw [here]; exact part))]
    exact here
  have oldRoot : ∀ {q : Nat}, q ≠ f → (newRoot split g src f).own q = .root → g.own q = .root := by
    intro q other here
    simpa [newRoot,Function.update_of_ne other] using here
  refine ⟨?_,?_,?_,?_,?_,?_⟩
  · intro q here
    by_cases same : q = f
    · rw [same]; exact frame
    · exact tables.aligned q (oldRoot same here)
  · intro q here
    by_cases same : q = f
    · subst same
      simp only [newRoot,Function.update_self]
      refine ⟨?_,?_,?_,?_,?_⟩
      · intro v inside
        dsimp only
        by_cases user : v < split
        · rw [if_pos user]
          rw [low v user inside]
          exact ⟨is_valid_zero,fun _ => rfl⟩
        · rw [if_neg user,high v (by omega) inside]
          exact (tables.tree src (source (by omega))).top v inside
      · intro i a inside parent
        dsimp only at parent ⊢
        by_cases user : i/512 < split
        · rw [if_pos user] at parent
          cases parent
        · rw [if_neg user] at parent
          rw [if_neg (show ¬ i < split*512 by omega)]
          exact (tables.tree src (source (by omega))).mid i a inside parent
      · intro i inside parent
        dsimp only at parent ⊢
        by_cases user : i < split*512
        · exact if_pos user
        · rw [if_neg (show ¬ i/512 < split by omega)] at parent
          rw [if_neg user]
          exact (tables.tree src (source (by omega))).mid_none i inside parent
      · intro n b inside table
        dsimp only at table ⊢
        by_cases user : n < split*2^18
        · rw [if_pos (show n/512 < split*512 by omega)] at table
          cases table
        · rw [if_neg (show ¬ n/512 < split*512 by omega)] at table
          rw [if_neg user]
          exact (tables.tree src (source (by omega))).low n b inside table
      · intro n inside table
        dsimp only at table ⊢
        by_cases user : n < split*2^18
        · exact if_pos user
        · rw [if_neg (show ¬ n/512 < split*512 by omega)] at table
          rw [if_neg user]
          exact (tables.tree src (source (by omega))).low_none n inside table
    · simp only [newRoot,Function.update_of_ne same]
      exact tables.tree q (oldRoot same here)
  · intro q v a here inside table
    by_cases same : q = f
    · subst same
      simp only [newRoot,Function.update_self] at table
      by_cases user : v < split
      · rw [if_pos user] at table
        cases table
      · rw [if_neg user] at table
        have owner := tables.l2 src v a (source (by omega)) inside table
        unfold home2 at owner ⊢
        rw [if_neg user] at owner ⊢
        exact kept rfl owner
    · simp only [newRoot,Function.update_of_ne same] at table
      exact kept (home2_structural _ _ _) (tables.l2 q v a (oldRoot same here) inside table)
  · intro q i b here inside table
    by_cases same : q = f
    · subst same
      simp only [newRoot,Function.update_self] at table
      by_cases user : i < split*512
      · rw [if_pos user] at table
        cases table
      · rw [if_neg user] at table
        have owner := tables.l1 src i b (source (by omega)) inside table
        unfold home1 at owner ⊢
        rw [if_neg user] at owner ⊢
        exact kept rfl owner
    · simp only [newRoot,Function.update_of_ne same] at table
      exact kept (home1_structural _ _ _) (tables.l1 q i b (oldRoot same here) inside table)
  · intro a q v here
    have old : g.own a = .l2 q v := by
      by_cases new : a = f
      · subst new; simp [newRoot] at here
      · simpa [newRoot,Function.update_of_ne new] using here
    obtain ⟨isRoot,inside,table⟩ := tables.l2_back a q v old
    have other : q ≠ f := fresh (by rw [isRoot]; rfl)
    exact ⟨kept rfl isRoot,inside,by simpa [newRoot,Function.update_of_ne other] using table⟩
  · intro b q i here
    have old : g.own b = .l1 q i := by
      by_cases new : b = f
      · subst new; simp [newRoot] at here
      · simpa [newRoot,Function.update_of_ne new] using here
    obtain ⟨isRoot,inside,table⟩ := tables.l1_back b q i old
    have other : q ≠ f := fresh (by rw [isRoot]; rfl)
    exact ⟨kept rfl isRoot,inside,by simpa [newRoot,Function.update_of_ne other] using table⟩

theorem retired_eq {r x : Nat} {o : Owner} {o' : Owner} (here : retired r x o = o') (used : o' ≠ .temp) : o = o' := by
  cases o with
  | root =>
    by_cases same : x = r
    · simp only [retired,if_pos same] at here
      exact absurd here.symm used
    · simpa [retired,same] using here
  | l2 q v =>
    by_cases same : q = r
    · simp only [retired,if_pos same] at here
      exact absurd here.symm used
    · simpa [retired,same] using here
  | l1 q i =>
    by_cases same : q = r
    · simp only [retired,if_pos same] at here
      exact absurd here.symm used
    · simpa [retired,same] using here
  | none => exact here
  | free => exact here
  | temp => exact here
  | user => exact here
  | kernel => exact here
  | stack b => exact here

theorem Tables.retire (tables : Tables split mem g) (r : Nat) : Tables split mem (retire g r) := by
  have old : ∀ {x : Nat} {o : Owner}, (Mirror.retire g r).own x = o → o ≠ .temp → g.own x = o :=
    fun here used => retired_eq here used
  have other : ∀ {q : Nat}, (Mirror.retire g r).own q = .root → q ≠ r := by
    rintro q here rfl
    have isRoot := old here (by simp)
    simp [Mirror.retire,retired,isRoot] at here
  have root : ∀ {q : Nat}, q ≠ r → g.own q = .root → (Mirror.retire g r).own q = .root := by
    intro q different isRoot
    simp [Mirror.retire,retired,isRoot,different]
  refine ⟨fun q here => tables.aligned q (old here (by simp)),fun q here => tables.tree q (old here (by simp)),?_,?_,?_,?_⟩
  · intro q v a here inside table
    have owner := tables.l2 q v a (old here (by simp)) inside table
    have different := other here
    unfold home2 at owner ⊢
    simp only [Mirror.retire,owner]
    split
    · simp [retired,different]
    · rfl
  · intro q i b here inside table
    have owner := tables.l1 q i b (old here (by simp)) inside table
    have different := other here
    unfold home1 at owner ⊢
    simp only [Mirror.retire,owner]
    split
    · simp [retired,different]
    · rfl
  · intro a q v here
    have before := old here (by simp)
    obtain ⟨isRoot,inside,table⟩ := tables.l2_back a q v before
    refine ⟨root ?_ isRoot,inside,table⟩
    rintro rfl
    simp [Mirror.retire,retired,before] at here
  · intro b q i here
    have before := old here (by simp)
    obtain ⟨isRoot,inside,table⟩ := tables.l1_back b q i before
    refine ⟨root ?_ isRoot,inside,table⟩
    rintro rfl
    simp [Mirror.retire,retired,before] at here

/-- The upper part of the tables, all of one root so far, becomes the kernel's. -/
theorem Tables.freeze (tables : Tables 512 mem g) (k : Nat) : Tables k mem (freeze k g) := by
  have root : ∀ {q : Nat}, (Mirror.freeze k g).own q = .root ↔ g.own q = .root := by
    intro q
    simp only [Mirror.freeze]
    cases g.own q with
    | l2 r v => simp only [frozen]; split <;> simp
    | l1 r i => simp only [frozen]; split <;> simp
    | _ => simp [frozen]
  refine ⟨fun q here => tables.aligned q (root.mp here),fun q here => tables.tree q (root.mp here),?_,?_,?_,?_⟩
  · intro q v a here inside table
    have owner := tables.l2 q v a (root.mp here) inside table
    rw [home2,if_pos inside] at owner
    simp only [Mirror.freeze,owner,frozen,home2]
  · intro q i b here inside table
    have owner := tables.l1 q i b (root.mp here) inside table
    rw [home1,if_pos (by omega)] at owner
    simp only [Mirror.freeze,owner,frozen,home1]
  · intro a q v here
    simp only [Mirror.freeze] at here
    cases owner : g.own a with
    | l2 r w =>
      rw [owner] at here
      simp only [frozen] at here
      split at here
      · rename_i low
        simp only [Owner.l2.injEq] at here
        obtain ⟨rfl,rfl⟩ := here
        obtain ⟨isRoot,_,table⟩ := tables.l2_back a r w owner
        exact ⟨root.mpr isRoot,low,table⟩
      · cases here
    | l1 r i =>
      rw [owner] at here
      simp only [frozen] at here
      split at here <;> cases here
    | _ =>
      rw [owner] at here
      simp [frozen] at here
  · intro b q i here
    simp only [Mirror.freeze] at here
    cases owner : g.own b with
    | l2 r w =>
      rw [owner] at here
      simp only [frozen] at here
      split at here <;> cases here
    | l1 r j =>
      rw [owner] at here
      simp only [frozen] at here
      split at here
      · rename_i low
        simp only [Owner.l1.injEq] at here
        obtain ⟨rfl,rfl⟩ := here
        obtain ⟨isRoot,_,table⟩ := tables.l1_back b r j owner
        exact ⟨root.mpr isRoot,low,table⟩
      · cases here
    | _ =>
      rw [owner] at here
      simp [frozen] at here

end

end Unit00.Mirror
