import Unit00.Maps

/-!
The traversal of a page table's leaves. It is the loop over the list of the
mappings that `lookup` knows when it starts, whatever the callback does to the
entry it is given and to memory outside the tables.
-/
namespace Unit00.Leaves
open Unit00.Memory Unit00.Execution Unit00.Frame Unit00.Paging Unit00.Paging.PTEntry Unit00.Trees Unit00.Ownership Unit00.View
open Unit00.Maps

/-! ### The mappings of a table -/

/-- The entry of a page, where `lookup` finds a valid one. -/
def mapping (m : Mm) (pt : PageTable) (n : Nat) : Option (Nat × Nat) :=
  match (pt.lookup (n*4096)).run m with
  | .ok (some entry) _ => if is_valid (load64 m.mem entry) then some (n*4096,entry) else none
  | _ => none

/-- The mappings of `count` pages from `first` on, each with the address of its entry, in address order. -/
def mappings (m : Mm) (pt : PageTable) (first count : Nat) : List (Nat × Nat) :=
  (List.range' first count).filterMap (mapping m pt)

/-- The mappings with `vpn2` in a range. -/
def leaves (m : Mm) (pt : PageTable) (lo hi : Nat) : List (Nat × Nat) := mappings m pt (lo*2^18) ((hi-lo)*2^18)

section
variable {m : Mm} {pt : PageTable} {t : Tree}

theorem mapping_some {n va entry : Nat} : mapping m pt n = some (va,entry) ↔
    va = n*4096 ∧ (pt.lookup (n*4096)).run m = .ok (some entry) m ∧ is_valid (load64 m.mem entry) = true := by
  unfold mapping
  constructor
  · intro found
    split at found
    next other s run =>
      split at found
      next valid =>
        obtain ⟨rfl,rfl⟩ := Prod.mk.inj (Option.some.inj found)
        have same : s = m := by
          unfold PageTable.lookup at run
          obtain ⟨a,m1,first,run⟩ := bind_ok run
          obtain ⟨rfl,rfl⟩ := EStateM.Result.ok.inj ((run_read _ _).symm.trans first)
          split at run
          · exact absurd (EStateM.Result.ok.inj run).1 (by simp)
          · obtain ⟨a,m1,second,run⟩ := bind_ok run
            obtain ⟨rfl,rfl⟩ := EStateM.Result.ok.inj ((run_read _ _).symm.trans second)
            split at run
            · exact absurd (EStateM.Result.ok.inj run).1 (by simp)
            · exact (EStateM.Result.ok.inj run).2.symm
        rw [same] at run
        exact ⟨rfl,run,valid⟩
      next => exact absurd found (by simp)
    next => exact absurd found (by simp)
  · rintro ⟨rfl,run,valid⟩
    rw [run]
    dsimp only
    rw [if_pos valid]

/-- The list of mappings is what it is meant to be: the valid leaves that `lookup` finds. -/
theorem mem_leaves {lo hi : Nat} (bound : hi ≤ 512) {va entry : Nat} : (va,entry) ∈ leaves m pt lo hi ↔
    va%4096 = 0 ∧ va < 2^39 ∧ lo ≤ vpn va 2 ∧ vpn va 2 < hi ∧ (pt.lookup va).run m = .ok (some entry) m ∧
      is_valid (load64 m.mem entry) = true := by
  have page : ∀ n, n < 2^27 → vpn (n*4096) 2 = n/2^18 := by
    intro n inside
    rw [vpn_two,pageOf_page inside]
    omega
  unfold leaves mappings
  rw [List.mem_filterMap]
  constructor
  · rintro ⟨n,inside,found⟩
    obtain ⟨rfl,run,valid⟩ := mapping_some.mp found
    rw [List.mem_range'_1] at inside
    have small : n < 2^27 := by omega
    rw [page n small]
    exact ⟨by omega,by omega,by omega,by omega,run,valid⟩
  · rintro ⟨aligned,below,low,high,run,valid⟩
    have whole : va = va/4096*4096 := by omega
    have small : va/4096 < 2^27 := by omega
    rw [whole,page _ small] at low high
    refine ⟨va/4096,List.mem_range'_1.mpr (by omega),mapping_some.mpr ⟨whole,?_,valid⟩⟩
    rw [← whole]
    exact run

/-- Each address stands in the list once, in increasing order. -/
theorem leaves_sorted (m : Mm) (pt : PageTable) (lo hi : Nat) : (leaves m pt lo hi).Pairwise (fun p q => p.1 < q.1) := by
  refine List.Pairwise.filterMap (mapping m pt) ?_ List.pairwise_lt_range'
  rintro n k before ⟨va,entry⟩ found ⟨vb,entry'⟩ found'
  obtain ⟨rfl,_,_⟩ := mapping_some.mp found
  obtain ⟨rfl,_,_⟩ := mapping_some.mp found'
  exact Nat.mul_lt_mul_of_pos_right before (by decide)

theorem mapping_tree (tree : TreeAt false m.mem pt.root t) {n : Nat} (inside : n < 2^27) :
    mapping m pt n = if is_valid (t.leaf n) then (t.l1 (n/512)).map fun b => (n*4096,entry_at b (n%512)) else none := by
  unfold mapping
  rw [lookup_eq pt tree,pageOf_page inside]
  unfold leafSlot
  cases table : t.l1 (n/512) with
  | none => simp
  | some b =>
    rw [Option.map_some,Option.map_some]
    dsimp only
    rw [tree.low n b inside table]

theorem mappings_succ (m : Mm) (pt : PageTable) (first count : Nat) :
    mappings m pt first (count+1) = mappings m pt first count ++ (mapping m pt (first+count)).toList := by
  unfold mappings
  rw [List.range'_1_concat,List.filterMap_append]
  cases found : mapping m pt (first+count) <;> simp [found]

theorem mappings_split (m : Mm) (pt : PageTable) (first count rest : Nat) :
    mappings m pt first (count+rest) = mappings m pt first count ++ mappings m pt (first+count) rest := by
  unfold mappings
  rw [← List.filterMap_append,List.range'_append_1]

end

/-! ### The traversal -/

/-- A callback that leaves the tables alone but for the entry it is given, in the states that it is called in. -/
structure Callback (J : Mm → Prop) (r : Nat) (t : Tree) (callback : Nat → Nat → M Unit) : Prop where
  keep : ∀ {m m' n b}, J m → n < 2^27 → t.l1 (n/512) = some b → (callback (n*4096) (entry_at b (n%512))).run m = .ok ⟨⟩ m' → J m'
  spare : ∀ {m m' n b f j}, J m → n < 2^27 → t.l1 (n/512) = some b →
    (callback (n*4096) (entry_at b (n%512))).run m = .ok ⟨⟩ m' → InTree r t f → j < 512 → entry_at f j ≠ entry_at b (n%512) →
    load64 m'.mem (entry_at f j) = load64 m.mem (entry_at f j)

/-- The traversal before page `n`: the mappings so far were visited, and the rest of the tables is as it was. -/
structure Visited (J : Mm → Prop) (pt : PageTable) (t : Tree) (callback : Nat → Nat → M Unit) (lo : Nat) (m0 : Mm) (n : Nat)
    (m : Mm) : Prop where
  run : (forM (mappings m0 pt (lo*2^18) (n-lo*2^18)) fun p => callback p.1 p.2 : M Unit).run m0 = .ok ⟨⟩ m
  good : J m
  top : ∀ v, v < 512 → load64 m.mem (entry_at pt.root v) = load64 m0.mem (entry_at pt.root v)
  mid : ∀ v a j, v < 512 → t.l2 v = some a → j < 512 → load64 m.mem (entry_at a j) = load64 m0.mem (entry_at a j)
  low : ∀ k b, n ≤ k → k < 2^27 → t.l1 (k/512) = some b → load64 m.mem (entry_at b (k%512)) = t.leaf k

section
variable {J : Mm → Prop} {m m0 : Mm} {pt : PageTable} {t : Tree} {callback : Nat → Nat → M Unit} {lo n : Nat}

/-- A page without a mapping. -/
theorem Visited.pass (now : Visited J pt t callback lo m0 n m) (low : lo*2^18 ≤ n) (none : mapping m0 pt n = none) :
    Visited J pt t callback lo m0 (n+1) m := by
  have count : n+1-lo*2^18 = n-lo*2^18+1 := by omega
  have here : lo*2^18+(n-lo*2^18) = n := by omega
  refine ⟨?_,now.good,now.top,now.mid,fun k b after => now.low k b (by omega)⟩
  rw [count,mappings_succ,here,none,Option.toList_none,List.append_nil]
  exact now.run

/-- A page whose mapping was visited. -/
theorem Visited.step (now : Visited J pt t callback lo m0 n m) (formed : WellFormed m0.mem pt.root t)
    (polite : Callback J pt.root t callback) (low : lo*2^18 ≤ n) (inside : n < 2^27) {b : Nat}
    (table : t.l1 (n/512) = some b) (found : mapping m0 pt n = some (n*4096,entry_at b (n%512))) {m' : Mm}
    (run : (callback (n*4096) (entry_at b (n%512))).run m = .ok ⟨⟩ m') : Visited J pt t callback lo m0 (n+1) m' := by
  have count : n+1-lo*2^18 = n-lo*2^18+1 := by omega
  have here : lo*2^18+(n-lo*2^18) = n := by omega
  have place : n/512 < 2^18 := by omega
  have aligned := formed.tree.l1_aligned place table
  have spare : ∀ {f j}, InTree pt.root t f → j < 512 → entry_at f j ≠ entry_at b (n%512) →
      load64 m'.mem (entry_at f j) = load64 m.mem (entry_at f j) := fun held small => polite.spare now.good inside table run held small
  refine ⟨?_,polite.keep now.good inside table run,?_,?_,?_⟩
  · rw [count,mappings_succ,here,found,Option.toList_some,List.forM_append,run_seq now.run]
    show ((callback (n*4096) (entry_at b (n%512))) >>= fun _ => pure ⟨⟩ : M Unit).run m = .ok ⟨⟩ m'
    rw [run_seq run]
    rfl
  · intro v small
    have other := (formed.root1 place table).symm
    have := formed.aligned
    rw [spare (.inl rfl) small (by unfold entry_at; omega),now.top v small]
  · intro v a j small table' small'
    have aligned' := formed.tree.l2_aligned small table'
    have other : a ≠ b := by
      rintro rfl
      exact formed.apart small place table' table
    rw [spare (.inr (.inl ⟨v,small,table'⟩)) small' (by unfold entry_at; omega),now.mid v a j small table' small']
  · intro k c after inside' table'
    have place' : k/512 < 2^18 := by omega
    have aligned' := formed.tree.l1_aligned place' table'
    have other : entry_at c (k%512) ≠ entry_at b (n%512) := by
      by_cases same : c = b
      · subst same
        have := formed.single1 place' place table' table
        unfold entry_at
        omega
      · unfold entry_at
        omega
    rw [spare (.inr (.inr ⟨_,place',table'⟩)) (Nat.mod_lt _ (by decide)) other]
    exact now.low k c (by omega) inside' table'

/-- A callback that panics ends the loop over the mappings too. -/
theorem Visited.stop (now : Visited J pt t callback lo m0 n m) {hi entry : Nat} (low : lo*2^18 ≤ n) (high : n < hi*2^18)
    (found : mapping m0 pt n = some (n*4096,entry)) {e : Panic} {m' : Mm}
    (run : (callback (n*4096) entry).run m = .error e m') :
    (forM (leaves m0 pt lo hi) fun p => callback p.1 p.2 : M Unit).run m0 = .error e m' := by
  have here : lo*2^18+(n-lo*2^18) = n := Nat.add_sub_cancel' low
  have parts : ∀ a b, a ≤ n → n < b → b-a = n-a+1+(b-n-1) := by omega
  obtain ⟨rest,count⟩ : ∃ rest, (hi-lo)*2^18 = n-lo*2^18+1+rest := ⟨hi*2^18-n-1,by rw [Nat.sub_mul,parts _ _ low high]⟩
  have before := now.run
  unfold leaves
  rw [count]
  -- the first page is not to be computed
  generalize lo*2^18 = first at here before ⊢
  rw [mappings_split,mappings_succ,here,found,Option.toList_some,List.append_assoc,List.forM_append,run_seq before]
  exact run_seq_error run

/-- A traversal is the loop over the mappings that `lookup` finds when it starts: its callback is called for each of
    them once, in address order, with the address and the very entry, and for nothing else. -/
theorem for_each_leaf_enumerates (formed : WellFormed m.mem pt.root t)
    (leafy : ∀ n, n < 2^27 → is_valid (t.leaf n) = true →
      is_r (t.leaf n) = true ∨ is_w (t.leaf n) = true ∨ is_x (t.leaf n) = true)
    {hi : Nat} (order : lo ≤ hi) (bound : hi ≤ 512) (polite : Callback J pt.root t callback) (start : J m) :
    (pt.for_each_leaf lo hi callback).run m = (forM (leaves m pt lo hi) fun p => callback p.1 p.2 : M Unit).run m ∧
    (leaves m pt lo hi).Pairwise (fun p q => p.1 < q.1) ∧
    ∀ va entry, (va,entry) ∈ leaves m pt lo hi ↔
      va%4096 = 0 ∧ va < 2^39 ∧ lo ≤ vpn va 2 ∧ vpn va 2 < hi ∧ (pt.lookup va).run m = .ok (some entry) m ∧
        is_valid (load64 m.mem entry) = true := by
  refine ⟨?_,leaves_sorted m pt lo hi,fun va entry => mem_leaves bound⟩
  have isLeaf_iff : ∀ n, n < 2^27 → isLeaf (t.leaf n) = is_valid (t.leaf n) := by
    intro n inside
    cases valid : is_valid (t.leaf n) with
    | false => simp [isLeaf,valid]
    | true => rcases leafy n inside valid with h | h | h <;> simp [isLeaf,valid,h]
  have walk : Traversal false pt.root t.l2 t.l1 lo hi callback (Visited J pt t callback lo m)
      (fun e m' => (forM (leaves m pt lo hi) fun p => callback p.1 p.2 : M Unit).run m = .error e m') := by
    refine ⟨?_,?_,?_,?_,?_,?_⟩
    · intro n m1 v now inside
      rw [now.top v (by omega)]
      exact formed.tree.top v (by omega)
    · intro n m1 i a now inside table
      rw [now.mid (i/512) a _ (by omega) table (Nat.mod_lt _ (by decide))]
      exact formed.tree.mid i a (by omega) table
    · exact fun inside missing => formed.tree.mid_none _ (by omega) missing
    · intro n m1 now low inside missing
      refine now.pass low ?_
      rw [mapping_tree formed.tree (by omega),missing]
      simp
    · intro n m1 b now low inside table idle
      refine now.pass low ?_
      rw [now.low n b (Nat.le_refl _) (by omega) table,isLeaf_iff n (by omega)] at idle
      rw [mapping_tree formed.tree (by omega),idle]
      rfl
    · intro n m1 b now low inside table found
      rw [now.low n b (Nat.le_refl _) (by omega) table,isLeaf_iff n (by omega)] at found
      have here : mapping m pt n = some (n*4096,entry_at b (n%512)) := by
        rw [mapping_tree formed.tree (by omega),found,if_pos rfl,table]
        rfl
      cases run : (callback (n*4096) (entry_at b (n%512))).run m1 with
      | ok u m2 => exact now.step formed polite low (by omega) table here run
      | error e m2 => exact now.stop low inside here run
  have begin : Visited J pt t callback lo m (lo*2^18) m := by
    refine ⟨?_,start,fun _ _ => rfl,fun _ _ _ _ _ _ => rfl,fun k b _ inside table => formed.tree.low k b inside table⟩
    rw [Nat.sub_self]
    rfl
  have result := for_each_leaf_meets pt walk order begin
  cases run : (pt.for_each_leaf lo hi callback).run m with
  | ok u m' =>
    rw [run] at result
    have whole : (hi-lo)*2^18 = hi*2^18-lo*2^18 := by omega
    unfold leaves
    rw [whole]
    exact result.run.symm
  | error e m' =>
    rw [run] at result
    exact result.symm

end

def plainLeaf (pa : Nat) : PTEntry := new_leaf pa (PTEFlags.new true true false true)

/-- Two pages mapped in one table. -/
def twoLeaves : Mm := { single 32 (plainLeaf 0x80005000) with
  mem := store64 (single 32 (plainLeaf 0x80005000)).mem (entry_at (RAM_BASE+8192) 40) (plainLeaf 0x80007000) }

def twoLeafTree : Tree := { singleTree 32 (plainLeaf 0x80005000) with
  leaf := Function.update (singleTree 32 (plainLeaf 0x80005000)).leaf 40 (plainLeaf 0x80007000) }

theorem twoLeaves_formed : WellFormed twoLeaves.mem RAM_BASE twoLeafTree :=
  (single_formed (by decide) _).set (n := 40) (by decide) (show (singleTree 32 _).l1 0 = some (RAM_BASE+8192) from rfl) _

/-- A traversal that clears every entry visits the two mappings there are, the lower one first. -/
theorem for_each_leaf_enumerates_two :
    (blankTable.for_each_leaf 0 2 fun _ entry => Frame.write entry empty).run twoLeaves =
      (forM (leaves twoLeaves blankTable 0 2) fun p => Frame.write p.2 empty : M Unit).run twoLeaves ∧
    (leaves twoLeaves blankTable 0 2).Pairwise (fun p q => p.1 < q.1) ∧
    (0x20000,entry_at (RAM_BASE+8192) 32) ∈ leaves twoLeaves blankTable 0 2 ∧
    (0x28000,entry_at (RAM_BASE+8192) 40) ∈ leaves twoLeaves blankTable 0 2 := by
  have formed : WellFormed twoLeaves.mem blankTable.root twoLeafTree := twoLeaves_formed
  have leafy : ∀ n, n < 2^27 → is_valid (twoLeafTree.leaf n) = true →
      is_r (twoLeafTree.leaf n) = true ∨ is_w (twoLeafTree.leaf n) = true ∨ is_x (twoLeafTree.leaf n) = true := by
    intro n _ valid
    by_cases first : n = 32
    · subst first
      exact .inl (by decide +kernel)
    by_cases second : n = 40
    · subst second
      exact .inl (by decide +kernel)
    have other : twoLeafTree.leaf n = 0 := by simp [twoLeafTree,singleTree,first,second]
    rw [other] at valid
    exact absurd valid (by decide)
  have polite : Callback (fun _ => True) RAM_BASE twoLeafTree fun _ entry => Frame.write entry empty := by
    refine ⟨fun _ _ _ _ => trivial,?_⟩
    intro m m' n b f j _ _ table run inside small other
    obtain ⟨_,rfl⟩ := EStateM.Result.ok.inj run
    have alignedB := formed.tree.l1_aligned (show n/512 < 2^18 by omega) table
    have alignedF : f%4096 = 0 := by
      rcases inside with rfl | ⟨v,small,table⟩ | ⟨i,small,table⟩
      · decide
      · exact formed.tree.l2_aligned small table
      · exact formed.tree.l1_aligned small table
    refine load64_store64_off ?_
    unfold entry_at at other ⊢
    omega
  obtain ⟨same,sorted,listed⟩ := for_each_leaf_enumerates formed leafy (show 0 ≤ 2 by decide) (by decide) polite (m := twoLeaves) trivial
  refine ⟨same,sorted,(listed _ _).mpr ⟨by decide,by decide,by decide,by decide,?_,?_⟩,
    (listed _ _).mpr ⟨by decide,by decide,by decide,by decide,?_,?_⟩⟩
  · rw [lookup_eq blankTable formed.tree]
    rfl
  · rw [show load64 twoLeaves.mem (entry_at (RAM_BASE+8192) 32) = plainLeaf 0x80005000 from
      (load64_store64_off (by decide)).trans (load64_store64 _ _ _)]
    decide +kernel
  · rw [lookup_eq blankTable formed.tree]
    rfl
  · rw [show load64 twoLeaves.mem (entry_at (RAM_BASE+8192) 40) = plainLeaf 0x80007000 from load64_store64 _ _ _]
    decide +kernel

end Unit00.Leaves
