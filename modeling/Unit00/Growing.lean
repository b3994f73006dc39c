import Unit00.Pages

/-!
New pages on ledgers. While a range is mapped page by page, every frame that was
in use stays as it was, and a frame that was not is still unused, became a table
of this page table, or holds one of the new pages. Unmapping the pages again
from the left leaves only the tables.
-/
namespace Unit00.Growing
open Unit00.Memory Unit00.Frame Unit00.Paging Unit00.Paging.PTEntry Unit00.Trees Unit00.Ownership
open Unit00.Mirror Unit00.Pages

/-- A frame that nobody uses. -/
def Unused (g : Ledger) (x : Nat) : Prop := g.own x = .free ∨ g.own x = .none

/-- A table of the user half of a root. -/
def TableOf (g : Ledger) (r x : Nat) : Prop := (∃ v, g.own x = .l2 r v) ∨ ∃ i, g.own x = .l1 r i

/-- Flags with which every leaf is a valid user leaf. -/
def UserFlags (flags : PTEFlags) : Prop := ∀ f, is_valid (new_leaf f flags) = true ∧ is_u (new_leaf f flags) = true

/-- The address of a frame of the managed RAM. -/
def Frame (f : Nat) : Prop := f%4096 = 0 ∧ f < RAM_END

theorem new_leaf_injective {flags : PTEFlags} {x f : Nat} (first : Frame x) (second : Frame f)
    (same : new_leaf x flags = new_leaf f flags) : x = f := by
  have ram : RAM_END = 0x88000000 := rfl
  obtain ⟨alignedX,boundX⟩ := first
  obtain ⟨aligned,bound⟩ := second
  rw [← ppn_new_leaf flags alignedX (by omega),← ppn_new_leaf flags aligned (by omega),same]

/-- The pages from `lo` to `hi` of one root were mapped to new frames and nothing else
    happened, tables made on the way apart. -/
structure Grown (r lo hi : Nat) (flags : PTEFlags) (g g' : Ledger) : Prop where
  leaf : ∀ q k, ¬ (q = r ∧ lo ≤ k ∧ k < hi) → (g'.tree q).leaf k = (g.tree q).leaf k
  absent : ∀ k, lo ≤ k → k < hi → (g.tree r).leaf k = 0
  kept : ∀ x, ¬ Unused g x → g'.own x = g.own x ∧ g'.refs x = g.refs x
  made : ∀ x, Unused g x → Unused g' x ∨ TableOf g' r x ∨
    (g'.own x = .user ∧ Frame x ∧ ∃ k, lo ≤ k ∧ k < hi ∧ (g'.tree r).leaf k = new_leaf x flags)
  apart : ∀ j k, lo ≤ j → j < hi → lo ≤ k → k < hi → (g'.tree r).leaf j = (g'.tree r).leaf k → j = k
  pages : ∀ k, lo ≤ k → k < hi → ∃ f, (g'.tree r).leaf k = new_leaf f flags ∧ Frame f ∧ Unused g f ∧
    g'.own f = .user ∧ g'.refs f = 1

theorem Grown.refl (r n : Nat) (flags : PTEFlags) (g : Ledger) : Grown r n n flags g g where
  leaf _ _ _ := rfl
  absent _ low high := by omega
  kept _ _ := ⟨rfl,rfl⟩
  made _ unused := .inl unused
  apart _ _ low high := by omega
  pages _ low high := by omega

section
variable {r lo hi : Nat} {flags : PTEFlags} {g0 g g1 : Ledger}

/-- An empty range is as good as any other. -/
theorem Grown.empty {n : Nat} (grown : Grown r n n flags g0 g) (k : Nat) : Grown r k k flags g0 g where
  leaf q j _ := grown.leaf q j (by omega)
  absent _ low high := by omega
  kept := grown.kept
  made x unused := by
    rcases grown.made x unused with h | h | ⟨_,_,j,low,high,_⟩
    · exact .inl h
    · exact .inr (.inl h)
    · omega
  apart _ _ low high := by omega
  pages _ low high := by omega

/-- What is unused now was unused at the start. -/
theorem Grown.unused (grown : Grown r lo hi flags g0 g) {x : Nat} (unused : Unused g x) : Unused g0 x := by
  by_contra used
  have same := (grown.kept x used).1
  unfold Unused at unused used
  rw [same] at unused
  exact used unused

/-- Frames in use when a walk starts stay as they are. -/
theorem grows_used {n f x : Nat} (grows : Grows r n (g.take f) g1) (used : ¬ Unused g x) (other : x ≠ f) :
    g1.own x = g.own x ∧ g1.refs x = g.refs x := by
  rcases grows.own x with same | ⟨unused,_,_⟩
  · rw [grows.refs x same,same,take_own_other other,take_refs_other other]
    exact ⟨rfl,rfl⟩
  · rw [take_own_other other] at unused
    exact absurd unused used

/-- A walk with a taken frame: other frames are as they were, or tables of the root now. -/
theorem grows_made {n f x : Nat} (grows : Grows r n (g.take f) g1) (other : x ≠ f) :
    (g1.own x = g.own x ∧ g1.refs x = g.refs x) ∨ TableOf g1 r x := by
  rcases grows.own x with same | ⟨_,table,_⟩
  · left
    rw [grows.refs x same,same,take_own_other other,take_refs_other other]
    exact ⟨rfl,rfl⟩
  · exact .inr table

/-- A table was made for a page, or two, and the frame for the page itself went back. -/
theorem Grown.back {n f : Nat} (grown : Grown r lo hi flags g0 g) (unused : Unused g f) (grows : Grows r n (g.take f) g1) :
    Grown r lo hi flags g0 (g1.release f) := by
  have leaves : ∀ q, ((g1.release f).tree q).leaf = (g.tree q).leaf := fun q => grows.leaf q
  have own : ∀ {x}, x ≠ f → (g1.release f).own x = g1.own x := fun other => by simp [Ledger.release,Function.update_of_ne other]
  have refs : ∀ {x}, x ≠ f → (g1.release f).refs x = g1.refs x := fun other => by simp [Ledger.release,Function.update_of_ne other]
  have freed : (g1.release f).own f = .free := by simp [Ledger.release]
  refine ⟨?_,grown.absent,?_,?_,by rw [leaves]; exact grown.apart,?_⟩
  · intro q k outside
    rw [leaves]
    exact grown.leaf q k outside
  · intro x used
    have other : x ≠ f := by
      rintro rfl
      exact used (grown.unused unused)
    have now : ¬ Unused g x := by
      unfold Unused
      rw [(grown.kept x used).1]
      exact used
    obtain ⟨owner,count⟩ := grows_used grows now other
    rw [own other,refs other,owner,count]
    exact grown.kept x used
  · intro x before
    by_cases same : x = f
    · subst same
      exact .inl (.inl freed)
    unfold Unused TableOf
    rw [own same,leaves]
    rcases grows_made grows same with ⟨owner,_⟩ | table
    · rw [owner]
      exact grown.made x before
    · exact .inr (.inl table)
  · intro k low high
    obtain ⟨x,entry,frame,before,isUser,one⟩ := grown.pages k low high
    have other : x ≠ f := by
      rintro rfl
      rcases unused with h | h <;> rw [isUser] at h <;> cases h
    have now : ¬ Unused g x := by
      rintro (h | h) <;> rw [isUser] at h <;> cases h
    obtain ⟨owner,count⟩ := grows_used grows now other
    refine ⟨x,by rw [leaves]; exact entry,frame,before,?_,?_⟩
    · rw [own other,owner,isUser]
    · rw [refs other,count,one]

/-- The page after the range is mapped to the taken frame. -/
theorem Grown.more {f : Nat} (grown : Grown r lo hi flags g0 g) (order : lo ≤ hi) (unused : Unused g f) (frame : Frame f)
    (grows : Grows r hi (g.take f) g1) (bare : (g.tree r).leaf hi = 0) :
    Grown r lo (hi+1) flags g0 ((setLeaf g1 r hi (new_leaf f flags)).give f .user) := by
  have leaves : ∀ {q k}, ¬ (q = r ∧ k = hi) →
      (((setLeaf g1 r hi (new_leaf f flags)).give f .user).tree q).leaf k = (g.tree q).leaf k := by
    intro q k other
    rw [give_tree,leaf_setLeaf_other _ _ other,grows.leaf]
    rfl
  have mine : (((setLeaf g1 r hi (new_leaf f flags)).give f .user).tree r).leaf hi = new_leaf f flags := by
    rw [give_tree,leaf_setLeaf_self]
  have own : ∀ {x}, x ≠ f → ((setLeaf g1 r hi (new_leaf f flags)).give f .user).own x = g1.own x :=
    fun other => by simp [Ledger.give,Function.update_of_ne other]
  have owns : ((setLeaf g1 r hi (new_leaf f flags)).give f .user).own f = .user := by simp [Ledger.give]
  have refs : ((setLeaf g1 r hi (new_leaf f flags)).give f .user).refs = g1.refs := rfl
  have before := grown.unused unused
  have held : g1.own f = .temp ∧ g1.refs f = 1 := by
    rcases grows.own f with same | ⟨was,_,_⟩
    · rw [grows.refs f same,same,take_own_self]
      exact ⟨rfl,by simp [Ledger.take]⟩
    · rw [take_own_self] at was
      rcases was with h | h <;> cases h
  have fresh : ∀ {k}, lo ≤ k → k < hi → (g.tree r).leaf k ≠ new_leaf f flags := by
    intro k low high same
    obtain ⟨x,entry,frameX,_,isUser,_⟩ := grown.pages k low high
    obtain rfl := new_leaf_injective frameX frame (entry.symm.trans same)
    rcases unused with h | h <;> rw [isUser] at h <;> cases h
  refine ⟨?_,?_,?_,?_,?_,?_⟩
  · intro q k outside
    rw [leaves (by omega)]
    exact grown.leaf q k (by omega)
  · intro k low high
    by_cases last : k = hi
    · subst last
      rw [← grown.leaf r k (by omega)]
      exact bare
    · exact grown.absent k low (by omega)
  · intro x used
    have other : x ≠ f := by
      rintro rfl
      exact used before
    have now : ¬ Unused g x := by
      unfold Unused
      rw [(grown.kept x used).1]
      exact used
    obtain ⟨owner,count⟩ := grows_used grows now other
    rw [own other,refs,owner,count]
    exact grown.kept x used
  · intro x was
    by_cases same : x = f
    · subst same
      exact .inr (.inr ⟨owns,frame,hi,order,by omega,mine⟩)
    unfold Unused TableOf
    rw [own same]
    rcases grows_made grows same with ⟨owner,_⟩ | table
    · rw [owner]
      rcases grown.made x was with h | h | ⟨isUser,frameX,k,low,high,entry⟩
      · exact .inl h
      · exact .inr (.inl h)
      · exact .inr (.inr ⟨isUser,frameX,k,low,by omega,by rw [leaves (by omega)]; exact entry⟩)
    · exact .inr (.inl table)
  · intro j k lowJ highJ lowK highK same
    by_cases lastJ : j = hi
    · by_cases lastK : k = hi
      · omega
      rw [lastJ,mine,leaves (by omega)] at same
      exact absurd same.symm (fresh lowK (by omega))
    · by_cases lastK : k = hi
      · rw [lastK,mine,leaves (by omega)] at same
        exact absurd same (fresh lowJ (by omega))
      rw [leaves (by omega),leaves (by omega)] at same
      exact grown.apart j k lowJ (by omega) lowK (by omega) same
  · intro k low high
    by_cases last : k = hi
    · subst last
      exact ⟨f,mine,frame,before,owns,by rw [refs]; exact held.2⟩
    obtain ⟨x,entry,frameX,beforeX,isUser,one⟩ := grown.pages k low (by omega)
    have other : x ≠ f := by
      rintro rfl
      rcases unused with h | h <;> rw [isUser] at h <;> cases h
    have now : ¬ Unused g x := by
      rintro (h | h) <;> rw [isUser] at h <;> cases h
    obtain ⟨owner,count⟩ := grows_used grows now other
    refine ⟨x,by rw [leaves (by omega)]; exact entry,frameX,beforeX,?_,?_⟩
    · rw [own other,owner,isUser]
    · rw [refs,count,one]

/-- The first page of the range is unmapped again: its frame had no other use. -/
theorem Grown.less {f : Nat} (grown : Grown r lo hi flags g0 g) (order : lo < hi) (frame : Frame f)
    (entry : (g.tree r).leaf lo = new_leaf f flags) :
    Grown r (lo+1) hi flags g0 (setLeaf (g.drop f) r lo 0) := by
  obtain ⟨x,entryX,frameX,before,isUser,one⟩ := grown.pages lo (le_refl _) order
  obtain rfl := new_leaf_injective frameX frame (entryX.symm.trans entry)
  have leaves : ∀ {q k}, ¬ (q = r ∧ k = lo) → ((setLeaf (g.drop x) r lo 0).tree q).leaf k = (g.tree q).leaf k := by
    intro q k other
    rw [leaf_setLeaf_other _ _ other,drop_tree]
  have own : ∀ {y}, y ≠ x → (setLeaf (g.drop x) r lo 0).own y = g.own y := by
    intro y other
    rw [setLeaf_own,drop_own,if_neg (fun both => other both.1)]
  have refs : ∀ {y}, y ≠ x → (setLeaf (g.drop x) r lo 0).refs y = g.refs y := by
    intro y other
    rw [setLeaf_refs,drop_refs,if_neg other]
  have freed : (setLeaf (g.drop x) r lo 0).own x = .free := by
    rw [setLeaf_own,drop_own,if_pos ⟨rfl,one⟩]
  refine ⟨?_,fun k low high => grown.absent k (by omega) high,?_,?_,?_,?_⟩
  · intro q k outside
    by_cases here : q = r ∧ k = lo
    · obtain ⟨rfl,rfl⟩ := here
      rw [leaf_setLeaf_self,grown.absent k (le_refl _) order]
    · rw [leaves here]
      exact grown.leaf q k (by omega)
  · intro y used
    have other : y ≠ x := by
      rintro rfl
      exact used before
    rw [own other,refs other]
    exact grown.kept y used
  · intro y was
    by_cases same : y = x
    · subst same
      exact .inl (.inl freed)
    unfold Unused TableOf
    rw [own same]
    rcases grown.made y was with h | h | ⟨isUserY,frameY,k,low,high,entryY⟩
    · exact .inl h
    · exact .inr (.inl h)
    · have later : k ≠ lo := by
        rintro rfl
        exact same (new_leaf_injective frameY frame (entryY.symm.trans entry))
      exact .inr (.inr ⟨isUserY,frameY,k,by omega,high,by rw [leaves (by omega)]; exact entryY⟩)
  · intro j k lowJ highJ lowK highK same
    rw [leaves (by omega),leaves (by omega)] at same
    exact grown.apart j k (by omega) highJ (by omega) highK same
  · intro k low high
    obtain ⟨y,entryY,frameY,beforeY,isUserY,oneY⟩ := grown.pages k (by omega) high
    have other : y ≠ x := by
      rintro rfl
      have := grown.apart k lo (by omega) high (le_refl _) order (entryY.trans entry.symm)
      omega
    exact ⟨y,by rw [leaves (by omega)]; exact entryY,frameY,beforeY,by rw [own other]; exact isUserY,
      by rw [refs other]; exact oneY⟩

end

end Unit00.Growing
