import Unit00.Entry

/-!
Three-level page tables as trees. `TreeAt` ties the tables in memory under a
root to a tree of frames and leaves, indexed by page number; the lemmas say
what a lookup reads, what writing an entry or attaching a zeroed table does to
the tree, and how a traversal of the leaves runs.
-/
namespace Unit00.Trees
open Unit00.Memory Unit00.Execution Unit00.Frame Unit00.Paging Unit00.Paging.PTEntry

/-! ### Page numbers -/

/-- The 27-bit page number of an address. -/
def pageOf (vaddr : Nat) : Nat := vaddr/4096%2^27

theorem pageOf_lt (vaddr : Nat) : pageOf vaddr < 2^27 := Nat.mod_lt _ (by decide)

theorem vpn_eq (vaddr level : Nat) : vpn vaddr level = vaddr/2^(12+9*level)%512 := by
  unfold vpn
  rw [Nat.shiftRight_eq_div_pow]
  exact Nat.and_two_pow_sub_one_eq_mod _ 9

theorem vpn_two (vaddr : Nat) : vpn vaddr 2 = pageOf vaddr/512/512 := by
  rw [vpn_eq]
  unfold pageOf
  omega

theorem vpn_one (vaddr : Nat) : vpn vaddr 1 = pageOf vaddr/512%512 := by
  rw [vpn_eq]
  unfold pageOf
  omega

theorem vpn_zero (vaddr : Nat) : vpn vaddr 0 = pageOf vaddr%512 := by
  rw [vpn_eq]
  unfold pageOf
  omega

theorem pageOf_page {n : Nat} (inside : n < 2^27) : pageOf (n*4096) = n := by
  unfold pageOf
  omega

/-! ### Trees -/

/-- The frames of the tables under a root, by index, and the leaf of every page
    number; a page without tables has the empty leaf. -/
structure Tree where
  l2 : Nat → Option Nat
  l1 : Nat → Option Nat
  leaf : Nat → PTEntry

/-- An entry of an upper level that names the table at `a`. A strict entry is the one
    that `new_table` makes, with its bits 63 to 54 clear. -/
structure Names (strict : Bool) (e : PTEntry) (a : Nat) : Prop where
  valid : is_valid e = true
  not_r : is_r e = false
  not_w : is_w e = false
  not_x : is_x e = false
  address : ppn_to_addr e = a
  clean : strict = true → ∀ i, 54 ≤ i → e.getLsbD i = false
  word : strict = true → e = new_table a

/-- An entry of an upper level: a table or nothing. -/
def Slot (strict : Bool) (e : PTEntry) : Option Nat → Prop
  | none => is_valid e = false ∧ (strict = true → e = 0)
  | some a => Names strict e a

/-- The tables in memory under the root `r` are the tree `t`. -/
structure TreeAt (strict : Bool) (m : Mem) (r : Nat) (t : Tree) : Prop where
  top : ∀ v, v < 512 → Slot strict (load64 m (entry_at r v)) (t.l2 v)
  mid : ∀ i a, i < 2^18 → t.l2 (i/512) = some a → Slot strict (load64 m (entry_at a (i%512))) (t.l1 i)
  mid_none : ∀ i, i < 2^18 → t.l2 (i/512) = none → t.l1 i = none
  low : ∀ n b, n < 2^27 → t.l1 (n/512) = some b → load64 m (entry_at b (n%512)) = t.leaf n
  low_none : ∀ n, n < 2^27 → t.l1 (n/512) = none → t.leaf n = 0

theorem names_new_table (strict : Bool) {a : Nat} (aligned : a%4096 = 0) (bound : a < 2^56) :
    Names strict (new_table a) a := by
  refine ⟨?_,?_,?_,?_,ppn_new_table aligned bound,fun _ i high => getLsbD_new_table_high bound high,fun _ => rfl⟩
  · rw [is_valid_eq,getLsbD_new_table_low _ (by omega)]; rfl
  · rw [is_r_eq,getLsbD_new_table_low _ (by omega)]; rfl
  · rw [is_w_eq,getLsbD_new_table_low _ (by omega)]; rfl
  · rw [is_x_eq,getLsbD_new_table_low _ (by omega)]; rfl

theorem is_valid_zero : is_valid 0 = false := by decide

theorem Names.aligned {strict : Bool} {e : PTEntry} {a : Nat} (names : Names strict e a) : a%4096 = 0 := by
  rw [← names.address]
  exact ppn_to_addr_mod e

section
variable {strict : Bool} {m m' : Mem} {r : Nat} {t : Tree}

theorem TreeAt.l2_aligned (tree : TreeAt strict m r t) {v a : Nat} (inside : v < 512) (table : t.l2 v = some a) :
    a%4096 = 0 := by
  have slot := tree.top v inside
  rw [table] at slot
  exact Names.aligned slot

theorem TreeAt.l1_parent (tree : TreeAt strict m r t) {i b : Nat} (inside : i < 2^18) (table : t.l1 i = some b) :
    ∃ a, t.l2 (i/512) = some a := by
  cases parent : t.l2 (i/512) with
  | none =>
    rw [tree.mid_none i inside parent] at table
    cases table
  | some a => exact ⟨a,rfl⟩

theorem TreeAt.l1_aligned (tree : TreeAt strict m r t) {i b : Nat} (inside : i < 2^18) (table : t.l1 i = some b) :
    b%4096 = 0 := by
  obtain ⟨a,parent⟩ := tree.l1_parent inside table
  have slot := tree.mid i a inside parent
  rw [table] at slot
  exact Names.aligned slot

/-- A valid leaf has its tables. -/
theorem TreeAt.leaf_table (tree : TreeAt strict m r t) {n : Nat} (inside : n < 2^27) (valid : is_valid (t.leaf n) = true) :
    ∃ b, t.l1 (n/512) = some b := by
  cases table : t.l1 (n/512) with
  | none =>
    rw [tree.low_none n inside table] at valid
    cases valid
  | some b => exact ⟨b,rfl⟩

/-- A tree survives every change outside the pages of its tables. -/
theorem TreeAt.frame (tree : TreeAt strict m r t) {S : Nat → Prop} (change : Confined S m m') (aligned : r%4096 = 0)
    (root : ¬ S r) (mids : ∀ v a, v < 512 → t.l2 v = some a → ¬ S a)
    (lows : ∀ i b, i < 2^18 → t.l1 i = some b → ¬ S b) : TreeAt strict m' r t := by
  refine ⟨?_,?_,tree.mid_none,?_,tree.low_none⟩
  · intro v inside
    unfold entry_at
    rw [change.load aligned (by omega) root]
    exact tree.top v inside
  · intro i a inside table
    unfold entry_at
    rw [change.load (tree.l2_aligned (by omega) table) (by omega) (mids _ a (by omega) table)]
    exact tree.mid i a inside table
  · intro n b inside table
    unfold entry_at
    rw [change.load (tree.l1_aligned (by omega) table) (by omega) (lows _ b (by omega) table)]
    exact tree.low n b inside table

/-- A new value for one leaf. -/
theorem TreeAt.set_leaf (tree : TreeAt strict m r t) (aligned : r%4096 = 0) {n b : Nat} (inside : n < 2^27)
    (table : t.l1 (n/512) = some b) (root : r ≠ b) (mids : ∀ v a, v < 512 → t.l2 v = some a → a ≠ b)
    (lows : ∀ i, i < 2^18 → t.l1 i = some b → i = n/512) (e : PTEntry) :
    TreeAt strict (store64 m (entry_at b (n%512)) e) r { t with leaf := Function.update t.leaf n e } := by
  have change := confined_store64 m (p := b) (o := 8*(n%512)) e (tree.l1_aligned (by omega) table) (by omega)
  refine ⟨?_,?_,tree.mid_none,?_,?_⟩
  · intro v low
    unfold entry_at
    rw [change.load aligned (by omega) root]
    exact tree.top v low
  · intro i a low parent
    unfold entry_at
    rw [change.load (tree.l2_aligned (by omega) parent) (by omega) (mids _ a (by omega) parent)]
    exact tree.mid i a low parent
  · intro k c low holds
    by_cases same : k = n
    · subst same
      have equal : c = b := Option.some.inj (holds.symm.trans table)
      subst equal
      simp
    · simp only [Function.update_of_ne same]
      rw [← tree.low k c low holds]
      by_cases equal : c = b
      · subst equal
        have group := lows (k/512) (by omega) holds
        unfold entry_at
        exact load64_store64_off (by omega)
      · unfold entry_at
        exact change.load (tree.l1_aligned (by omega) holds) (by omega) equal
  · intro k low missing
    have other : k ≠ n := by
      rintro rfl
      rw [table] at missing
      cases missing
    simp only [Function.update_of_ne other]
    exact tree.low_none k low missing

/-- A zeroed table attached to the root. -/
theorem TreeAt.attach_l2 (tree : TreeAt strict m r t) (aligned : r%4096 = 0) {v f : Nat} (inside : v < 512)
    (missing : t.l2 v = none) (frame : f%4096 = 0) (bound : f < 2^56) (zero : ∀ j, j < 512 → load64 m (entry_at f j) = 0)
    (root : r ≠ f) (mids : ∀ v a, v < 512 → t.l2 v = some a → a ≠ r) (lows : ∀ i b, i < 2^18 → t.l1 i = some b → b ≠ r) :
    TreeAt strict (store64 m (entry_at r v) (new_table f)) r { t with l2 := Function.update t.l2 v (some f) } := by
  have change := confined_store64 m (p := r) (o := 8*v) (new_table f) aligned (by omega)
  refine ⟨?_,?_,?_,?_,tree.low_none⟩
  · intro w low
    by_cases same : w = v
    · subst same
      simp only [load64_store64,Function.update_self]
      exact names_new_table strict frame bound
    · unfold entry_at
      rw [load64_store64_off (by omega)]
      simp only [Function.update_of_ne same]
      exact tree.top w low
  · intro i a low parent
    by_cases same : i/512 = v
    · simp only [same,Function.update_self,Option.some.injEq] at parent
      subst parent
      rw [tree.mid_none i low (by rw [same]; exact missing)]
      unfold entry_at
      rw [change.load frame (by omega) (Ne.symm root)]
      have empty := zero (i%512) (by omega)
      unfold entry_at at empty
      rw [empty]
      exact ⟨is_valid_zero,fun _ => rfl⟩
    · simp only [Function.update_of_ne same] at parent
      unfold entry_at
      rw [change.load (tree.l2_aligned (by omega) parent) (by omega) (mids _ a (by omega) parent)]
      exact tree.mid i a low parent
  · intro i low parent
    by_cases same : i/512 = v
    · simp [same] at parent
    · simp only [Function.update_of_ne same] at parent
      exact tree.mid_none i low parent
  · intro n b low table
    unfold entry_at
    rw [change.load (tree.l1_aligned (by omega) table) (by omega) (lows _ b (by omega) table)]
    exact tree.low n b low table

/-- A zeroed table attached to a table of the second level. -/
theorem TreeAt.attach_l1 (tree : TreeAt strict m r t) (aligned : r%4096 = 0) {i a f : Nat} (inside : i < 2^18)
    (parent : t.l2 (i/512) = some a) (missing : t.l1 i = none) (frame : f%4096 = 0) (bound : f < 2^56)
    (zero : ∀ j, j < 512 → load64 m (entry_at f j) = 0) (fresh : a ≠ f) (root : r ≠ a)
    (mids : ∀ v, v < 512 → t.l2 v = some a → v = i/512) (lows : ∀ i b, i < 2^18 → t.l1 i = some b → b ≠ a) :
    TreeAt strict (store64 m (entry_at a (i%512)) (new_table f)) r { t with l1 := Function.update t.l1 i (some f) } := by
  have place := tree.l2_aligned (v := i/512) (by omega) parent
  have change := confined_store64 m (p := a) (o := 8*(i%512)) (new_table f) place (by omega)
  refine ⟨?_,?_,?_,?_,?_⟩
  · intro v low
    unfold entry_at
    rw [change.load aligned (by omega) root]
    exact tree.top v low
  · intro j c low above
    by_cases same : j = i
    · subst same
      have equal : c = a := Option.some.inj (above.symm.trans parent)
      subst equal
      simp only [load64_store64,Function.update_self]
      exact names_new_table strict frame bound
    · simp only [Function.update_of_ne same]
      have old := tree.mid j c low above
      by_cases equal : c = a
      · subst equal
        have group := mids (j/512) (by omega) above
        unfold entry_at at old ⊢
        rw [load64_store64_off (by omega)]
        exact old
      · unfold entry_at at old ⊢
        rw [change.load (tree.l2_aligned (by omega) above) (by omega) equal]
        exact old
  · intro j low above
    have other : j ≠ i := by
      rintro rfl
      rw [parent] at above
      cases above
    simp only [Function.update_of_ne other]
    exact tree.mid_none j low above
  · intro n b low table
    by_cases same : n/512 = i
    · simp only [same,Function.update_self,Option.some.injEq] at table
      subst table
      rw [tree.low_none n low (by rw [same]; exact missing)]
      unfold entry_at
      rw [change.load frame (by omega) (Ne.symm fresh)]
      exact zero (n%512) (by omega)
    · simp only [Function.update_of_ne same] at table
      unfold entry_at
      rw [change.load (tree.l1_aligned (by omega) table) (by omega) (lows _ b (by omega) table)]
      exact tree.low n b low table
  · intro n low above
    by_cases same : n/512 = i
    · simp [same] at above
    · simp only [Function.update_of_ne same] at above
      exact tree.low_none n low above

end

/-! ### Looking up -/

/-- Where the leaf of a page number is, when its tables exist. -/
def leafSlot (t : Tree) (n : Nat) : Option Nat := (t.l1 (n/512)).map fun b => entry_at b (n%512)

/-- `lookup` finds the place of the leaf and changes nothing. -/
theorem lookup_eq {strict : Bool} {m : Mm} {t : Tree} (pt : PageTable) (tree : TreeAt strict m.mem pt.root t) (vaddr : Nat) :
    (pt.lookup vaddr).run m = .ok (leafSlot t (pageOf vaddr)) m := by
  have inside := pageOf_lt vaddr
  have top := tree.top (vpn vaddr 2) (by rw [vpn_two]; omega)
  unfold PageTable.lookup
  rw [run_seq (run_read _ m)]
  rw [vpn_two] at top ⊢
  cases second : t.l2 (pageOf vaddr/512/512) with
  | none =>
    rw [second] at top
    simp only [Slot] at top
    simp [top,leafSlot,tree.mid_none _ (by omega) second]
  | some a =>
    rw [second] at top
    have mid := tree.mid (pageOf vaddr/512) a (by omega) second
    simp only [top.valid,Bool.not_true,Bool.false_eq_true,if_false]
    rw [run_seq (run_read _ m),top.address,vpn_one]
    cases first : t.l1 (pageOf vaddr/512) with
    | none =>
      rw [first] at mid
      simp only [Slot] at mid
      simp [mid,leafSlot,first]
    | some b =>
      rw [first] at mid
      simp only [mid.valid,Bool.not_true,Bool.false_eq_true,if_false,mid.address,vpn_zero,leafSlot,first,Option.map_some]
      rfl

/-! ### Walking -/

/-- A level of `walk` whose table exists. -/
theorem walk_level_found {m : Mm} {strict : Bool} (pt : PageTable) {table idx a : Nat}
    (names : Names strict (load64 m.mem (entry_at table idx)) a) : (pt.walk_level table idx).run m = .ok (some a) m := by
  unfold PageTable.walk_level
  dsimp only
  rw [run_seq (run_read _ m)]
  simp only [names.valid,Bool.not_true,Bool.false_eq_true,if_false]
  rw [run_seq (run_read _ m),names.address]
  rfl

/-- A level of `walk` whose table is missing and cannot be made. -/
theorem walk_level_full {m m' : Mm} (pt : PageTable) {table idx : Nat}
    (missing : is_valid (load64 m.mem (entry_at table idx)) = false) (full : pt.frame_alloc.run m = .ok none m') :
    (pt.walk_level table idx).run m = .ok none m' := by
  unfold PageTable.walk_level
  dsimp only
  rw [run_seq (run_read _ m)]
  simp only [missing,Bool.not_false,if_true]
  rw [run_seq full]
  rfl

/-- A level of `walk` whose table is made. -/
theorem walk_level_made {m m' : Mm} (pt : PageTable) {table idx f : Nat}
    (missing : is_valid (load64 m.mem (entry_at table idx)) = false) (taken : pt.frame_alloc.run m = .ok (some f) m')
    (aligned : f%4096 = 0) (bound : f < 2^56) :
    (pt.walk_level table idx).run m =
      .ok (some f) { m' with mem := store64 (fill m'.mem f 0 4096) (entry_at table idx) (new_table f) } := by
  unfold PageTable.walk_level
  dsimp only
  rw [run_seq (run_read _ m)]
  simp only [missing,Bool.not_false,if_true]
  rw [run_seq taken]
  dsimp only
  rw [run_seq (run_write_bytes _ _ _ _),run_seq (run_write _ _ _),run_seq (run_read _ _)]
  simp only [load64_store64,ppn_new_table aligned bound]
  rfl

/-! ### Visiting every leaf -/

theorem or_page {v i j : Nat} (mid : i < 512) (low : j < 512) :
    v <<< 30 ||| i <<< 21 ||| j <<< 12 = (v*2^18+i*512+j)*4096 := by
  have first : i <<< 21 < 2^30 := by rw [Nat.shiftLeft_eq]; omega
  have second : j <<< 12 < 2^21 := by rw [Nat.shiftLeft_eq]; omega
  have inner : v <<< 30 ||| i <<< 21 = (v*512+i) <<< 21 := by
    rw [← Nat.shiftLeft_add_eq_or_of_lt first,Nat.shiftLeft_eq,Nat.shiftLeft_eq,Nat.shiftLeft_eq]
    omega
  rw [inner,← Nat.shiftLeft_add_eq_or_of_lt second,Nat.shiftLeft_eq,Nat.shiftLeft_eq]
  omega

/-- An entry that `for_each_leaf` takes for a page. -/
def isLeaf (e : PTEntry) : Bool := is_valid e && (is_r e || is_w e || is_x e)

/-- What the body of a traversal does over the tables `l2` and `l1`: from page to
    page it carries an invariant under which the tables stay where they are. -/
structure Traversal (strict : Bool) (root : Nat) (l2 l1 : Nat → Option Nat) (lo hi : Nat)
    (callback : Nat → Nat → M Unit) (I : Nat → Mm → Prop) (E : Panic → Mm → Prop) : Prop where
  top : ∀ {n m v}, I n m → v < hi → Slot strict (load64 m.mem (entry_at root v)) (l2 v)
  mid : ∀ {n m i a}, I n m → i < hi*512 → l2 (i/512) = some a → Slot strict (load64 m.mem (entry_at a (i%512))) (l1 i)
  mid_none : ∀ {i}, i < hi*512 → l2 (i/512) = none → l1 i = none
  skip : ∀ {n m}, I n m → lo*2^18 ≤ n → n < hi*2^18 → l1 (n/512) = none → I (n+1) m
  pass : ∀ {n m b}, I n m → lo*2^18 ≤ n → n < hi*2^18 → l1 (n/512) = some b →
    isLeaf (load64 m.mem (entry_at b (n%512))) = false → I (n+1) m
  visit : ∀ {n m b}, I n m → lo*2^18 ≤ n → n < hi*2^18 → l1 (n/512) = some b →
    isLeaf (load64 m.mem (entry_at b (n%512))) = true →
    Meets (I (n+1)) E ((callback (n*4096) (entry_at b (n%512))).run m)

section
variable {strict : Bool} {root : Nat} {l2 l1 : Nat → Option Nat} {lo hi : Nat} {callback : Nat → Nat → M Unit}
  {I : Nat → Mm → Prop} {E : Panic → Mm → Prop}

/-- Pages without a table are passed over one by one. -/
theorem Traversal.skip_many (walk : Traversal strict root l2 l1 lo hi callback I E) {n : Nat} {m : Mm} (count : Nat)
    (low : lo*2^18 ≤ n) (high : n+count ≤ hi*2^18) (missing : ∀ k, n ≤ k → k < n+count → l1 (k/512) = none)
    (start : I n m) : I (n+count) m := by
  induction count with
  | zero => exact start
  | succ count ih =>
    have before := ih (by omega) (fun k above below => missing k above (by omega))
    exact walk.skip (n := n+count) before (by omega) (by omega) (missing (n+count) (by omega) (by omega))

/-- The pages of one table of the last level. -/
theorem Traversal.run_low (walk : Traversal strict root l2 l1 lo hi callback I E) {v i b : Nat} (low : lo ≤ v) (high : v < hi)
    (small : i < 512) (table : l1 (v*512+i) = some b) {m : Mm} (start : I ((v*512+i)*512) m) :
    Meets (I ((v*512+i)*512+512)) E ((forM (List.range' 0 512) fun vpn0 => do
        let l1_entry ← Frame.read (entry_at b vpn0)
        if is_valid l1_entry then
          if is_r l1_entry || is_w l1_entry || is_x l1_entry then
            callback (v <<< 30 ||| i <<< 21 ||| vpn0 <<< 12) (entry_at b vpn0) : M Unit).run m) := by
  have loop := forM_range'_meets (fun j m => I ((v*512+i)*512+j) m) E (fun vpn0 => do
        let l1_entry ← Frame.read (entry_at b vpn0)
        if is_valid l1_entry then
          if is_r l1_entry || is_w l1_entry || is_x l1_entry then
            callback (v <<< 30 ||| i <<< 21 ||| vpn0 <<< 12) (entry_at b vpn0) : Nat → M Unit) 0 512 m (by rw [Nat.add_zero]; exact start) ?_
  · rwa [Nat.zero_add] at loop
  · intro j m _ below inv
    have group : ((v*512+i)*512+j)/512 = v*512+i := by omega
    have place : ((v*512+i)*512+j)%512 = j := by omega
    have page : v <<< 30 ||| i <<< 21 ||| j <<< 12 = ((v*512+i)*512+j)*4096 := by
      rw [or_page small (by omega)]
      omega
    rw [run_seq (run_read _ m),page,← Nat.add_assoc]
    cases leaf : isLeaf (load64 m.mem (entry_at b j)) with
    | true =>
      have both := leaf
      unfold isLeaf at both
      rw [Bool.and_eq_true] at both
      rw [if_pos both.1,if_pos both.2]
      have visited := walk.visit (n := (v*512+i)*512+j) (b := b) inv (by omega) (by omega) (by rw [group]; exact table)
        (by rw [place]; exact leaf)
      rwa [place] at visited
    | false =>
      have passed := walk.pass (n := (v*512+i)*512+j) (b := b) inv (by omega) (by omega) (by rw [group]; exact table)
        (by rw [place]; exact leaf)
      unfold isLeaf at leaf
      by_cases valid : is_valid (load64 m.mem (entry_at b j)) = true
      · rw [valid,Bool.true_and] at leaf
        rw [if_pos valid,if_neg (by rw [leaf]; simp)]
        exact passed
      · rw [if_neg valid]
        exact passed

end

/-- A traversal visits the pages of its range in order and carries its invariant to
    the end. -/
theorem for_each_leaf_meets {strict : Bool} (pt : PageTable) {l2 l1 : Nat → Option Nat} {lo hi : Nat}
    {callback : Nat → Nat → M Unit} {I : Nat → Mm → Prop} {E : Panic → Mm → Prop}
    (walk : Traversal strict pt.root l2 l1 lo hi callback I E) (order : lo ≤ hi) {m : Mm} (start : I (lo*2^18) m) :
    Meets (I (hi*2^18)) E ((pt.for_each_leaf lo hi callback).run m) := by
  unfold PageTable.for_each_leaf
  have outer := forM_range'_meets (fun v m => I (v*2^18) m) E (fun vpn2 => do
    let root_entry ← Frame.read (entry_at pt.root vpn2)
    if is_valid root_entry then
      let l2_addr := ppn_to_addr root_entry
      forM (List.range' 0 512) fun vpn1 => do
        let l2_entry ← Frame.read (entry_at l2_addr vpn1)
        if is_valid l2_entry then
          if is_r l2_entry || is_w l2_entry || is_x l2_entry then
            callback (vpn2 <<< 30 ||| vpn1 <<< 21) (entry_at l2_addr vpn1)
          else
            let l1_addr := ppn_to_addr l2_entry
            forM (List.range' 0 512) fun vpn0 => do
              let l1_entry ← Frame.read (entry_at l1_addr vpn0)
              if is_valid l1_entry then
                if is_r l1_entry || is_w l1_entry || is_x l1_entry then
                  callback (vpn2 <<< 30 ||| vpn1 <<< 21 ||| vpn0 <<< 12) (entry_at l1_addr vpn0) : Nat → M Unit)
    lo (hi-lo) m start ?_
  · rwa [show lo+(hi-lo) = hi by omega] at outer
  · intro v m low high inv
    have top := walk.top inv (v := v) (by omega)
    rw [run_seq (run_read _ m)]
    cases second : l2 v with
    | none =>
      rw [second] at top
      simp only [Slot] at top
      rw [top.1,if_neg (by simp)]
      have skipped := walk.skip_many (n := v*2^18) (2^18) (by omega) (by omega)
        (fun k above below => walk.mid_none (by omega) (by rw [show k/512/512 = v by omega]; exact second)) inv
      rw [show (v+1)*2^18 = v*2^18+2^18 by omega]
      exact skipped
    | some a =>
      rw [second] at top
      rw [if_pos top.valid]
      dsimp only
      rw [top.address]
      have inner := forM_range'_meets (fun i m => I ((v*512+i)*512) m) E (fun vpn1 => do
        let l2_entry ← Frame.read (entry_at a vpn1)
        if is_valid l2_entry then
          if is_r l2_entry || is_w l2_entry || is_x l2_entry then
            callback (v <<< 30 ||| vpn1 <<< 21) (entry_at a vpn1)
          else
            let l1_addr := ppn_to_addr l2_entry
            forM (List.range' 0 512) fun vpn0 => do
              let l1_entry ← Frame.read (entry_at l1_addr vpn0)
              if is_valid l1_entry then
                if is_r l1_entry || is_w l1_entry || is_x l1_entry then
                  callback (v <<< 30 ||| vpn1 <<< 21 ||| vpn0 <<< 12) (entry_at l1_addr vpn0) : Nat → M Unit)
        0 512 m (by rw [show (v*512+0)*512 = v*2^18 by omega]; exact inv) ?_
      · rwa [show (v*512+(0+512))*512 = (v+1)*2^18 by omega] at inner
      · intro i m _ small inv
        have mid := walk.mid inv (i := v*512+i) (a := a) (by omega) (by rw [show (v*512+i)/512 = v by omega]; exact second)
        rw [show (v*512+i)%512 = i by omega] at mid
        rw [run_seq (run_read _ m)]
        cases first : l1 (v*512+i) with
        | none =>
          rw [first] at mid
          simp only [Slot] at mid
          rw [mid.1,if_neg (by simp)]
          have skipped := walk.skip_many (n := (v*512+i)*512) 512 (by omega) (by omega)
            (fun k above below => by rw [show k/512 = v*512+i by omega]; exact first) inv
          rw [show (v*512+(i+1))*512 = (v*512+i)*512+512 by omega]
          exact skipped
        | some b =>
          rw [first] at mid
          rw [if_pos mid.valid,if_neg (by simp [mid.not_r,mid.not_w,mid.not_x])]
          dsimp only
          rw [mid.address,show (v*512+(i+1))*512 = (v*512+i)*512+512 by omega]
          exact walk.run_low low (by omega) (by omega) first inv

end Unit00.Trees
