import Unit00.Growth
import Mathlib.Data.Set.Card

/-!
The invariant on ledgers: which frames the user leaves of all page tables map,
how many map each frame, and which of them may be written. It is kept by
unmapping a page, by changing the marks of an entry, by mapping a new frame, by
sharing a frame with another root and by dropping a whole page table.
-/
namespace Unit00.Mirror
open Unit00.Memory Unit00.Execution Unit00.Frame Unit00.Paging Unit00.Paging.PTEntry Unit00.Trees Unit00.Ownership

/-! ### User leaves -/

/-- The page `n` of the root `r` has the user leaf `e`. -/
structure UserLeaf (g : Ledger) (r n : Nat) (e : PTEntry) : Prop where
  root : g.own r = .root
  inside : n < 2^27
  entry : (g.tree r).leaf n = e
  valid : is_valid e = true
  user : is_u e = true

/-- The places of the user leaves that map a frame. -/
def mappers (g : Ledger) (f : Nat) : Set (Nat × Nat) := { p | ∃ e, UserLeaf g p.1 p.2 e ∧ ppn_to_addr e = f }

/-- The bits of a user leaf: it may be read or executed, a writable page may be read,
    and a page that is copied on write is not writable. -/
structure Shape (e : PTEntry) : Prop where
  access : is_r e = true ∨ is_x e = true
  writable : is_w e = true → is_r e = true
  cow : is_cow e = true → is_r e = true ∧ is_w e = false
  flags : ∀ i, 5 ≤ i → i < 10 → e.getLsbD i = false
  high : ∀ i, 54 ≤ i → i ≠ 62 → e.getLsbD i = false

/-- The leaf of the console device, mapped to itself for the kernel. -/
def deviceLeaf : PTEntry := new_leaf 0x10000000 (PTEFlags.new true true false false)

/-- The page number of the console device. -/
def devicePage : Nat := 0x10000

/-- The invariant. `owed` counts references taken for leaves that are not written yet;
    in an exact ledger every reference belongs to a leaf or is owed. -/
structure Sound (exact : Bool) (owed : Nat → Nat) (base : Nat) (g : Ledger) : Prop where
  low : ∀ {r n e}, UserLeaf g r n e → n < 2^19
  shape : ∀ {r n e}, UserLeaf g r n e → Shape e
  user : ∀ {r n e}, UserLeaf g r n e → g.own (ppn_to_addr e) = .user
  page : ∀ {r n e q k d}, UserLeaf g r n e → UserLeaf g q k d → ppn_to_addr e = ppn_to_addr d → n = k
  alone : ∀ {r n e q k d}, UserLeaf g r n e → UserLeaf g q k d → ppn_to_addr e = ppn_to_addr d → is_w e = true → q = r
  count : ∀ f, g.own f = .user → (mappers g f).ncard+owed f ≤ g.refs f
  exactly : exact = true → ∀ f, g.own f = .user → (mappers g f).ncard+owed f = g.refs f
  positive : ∀ f, g.own f = .user → 1 ≤ g.refs f
  bounded : ∀ f, g.own f = .user → g.refs f ≤ (g.next-base)/4096
  others : ∀ f, g.own f ≠ .user → g.own f ≠ .none → g.refs f = if g.own f = .free then 0 else 1
  roots : ∀ r, g.own r = .root → r < RAM_END
  plain : ∀ r n, g.own r = .root → n < 2^19 → ¬ (is_valid ((g.tree r).leaf n) = true ∧ is_u ((g.tree r).leaf n) = true) →
    (g.tree r).leaf n = 0 ∨ (n = devicePage ∧ (g.tree r).leaf n = deviceLeaf)
  upper : ∀ r n, g.own r = .root → 2^19 ≤ n → n < 2^27 → is_u ((g.tree r).leaf n) = false

/-- Nothing is owed. -/
def nothing : Nat → Nat := fun _ => 0

theorem UserLeaf.unique {g : Ledger} {r n : Nat} {e d : PTEntry} (first : UserLeaf g r n e) (second : UserLeaf g r n d) :
    e = d := first.entry.symm.trans second.entry

section
variable {exact : Bool} {owed : Nat → Nat} {base : Nat} {g g' : Ledger}

theorem mappers_finite (roots : ∀ r, g.own r = .root → r < RAM_END) (f : Nat) : (mappers g f).Finite := by
  refine Set.Finite.subset ((Set.finite_lt_nat RAM_END).prod (Set.finite_lt_nat (2^27))) ?_
  rintro ⟨r,n⟩ ⟨e,leaf,_⟩
  exact ⟨roots r leaf.root,leaf.inside⟩

/-- The number of mappers of a user frame bounds nothing but its count. -/
theorem Sound.two (sound : Sound exact owed base g) {r n q k : Nat} {e d : PTEntry} (first : UserLeaf g r n e)
    (second : UserLeaf g q k d) (same : ppn_to_addr e = ppn_to_addr d) (different : q ≠ r) : 2 ≤ g.refs (ppn_to_addr e) := by
  have count := sound.count _ (sound.user first)
  have finite := mappers_finite sound.roots (ppn_to_addr e)
  have many : 1 < (mappers g (ppn_to_addr e)).ncard := by
    rw [Set.one_lt_ncard finite]
    refine ⟨(r,n),⟨e,first,rfl⟩,(q,k),⟨d,second,same.symm⟩,?_⟩
    intro equal
    exact different (congrArg Prod.fst equal).symm
  omega

/-- A ledger with the same user leaves and user frames. -/
theorem Sound.transfer (sound : Sound exact owed base g)
    (leaves : ∀ {r n e}, UserLeaf g' r n e ↔ UserLeaf g r n e)
    (users : ∀ f, g'.own f = .user ↔ g.own f = .user) (refs : ∀ f, g.own f = .user → g'.refs f = g.refs f)
    (next : g.next ≤ g'.next)
    (others : ∀ f, g'.own f ≠ .user → g'.own f ≠ .none → g'.refs f = if g'.own f = .free then 0 else 1)
    (roots : ∀ r, g'.own r = .root → r < RAM_END)
    (plain : ∀ r n, g'.own r = .root → n < 2^19 →
      ¬ (is_valid ((g'.tree r).leaf n) = true ∧ is_u ((g'.tree r).leaf n) = true) →
      (g'.tree r).leaf n = 0 ∨ (n = devicePage ∧ (g'.tree r).leaf n = deviceLeaf))
    (upper : ∀ r n, g'.own r = .root → 2^19 ≤ n → n < 2^27 → is_u ((g'.tree r).leaf n) = false) :
    Sound exact owed base g' := by
  have maps : ∀ f, mappers g' f = mappers g f := by
    intro f
    ext p
    simp only [mappers,Set.mem_ofPred_eq,leaves]
  refine ⟨fun leaf => sound.low (leaves.mp leaf),fun leaf => sound.shape (leaves.mp leaf),?_,?_,?_,?_,?_,?_,?_,others,roots,
    plain,upper⟩
  · intro r n e leaf
    exact (users _).mpr (sound.user (leaves.mp leaf))
  · intro r n e q k d first second same
    exact sound.page (leaves.mp first) (leaves.mp second) same
  · intro r n e q k d first second same
    exact sound.alone (leaves.mp first) (leaves.mp second) same
  · intro f isUser
    have isUser' := (users f).mp isUser
    rw [maps,refs f isUser']
    exact sound.count f isUser'
  · intro yes f isUser
    have isUser' := (users f).mp isUser
    rw [maps,refs f isUser']
    exact sound.exactly yes f isUser'
  · intro f isUser
    have isUser' := (users f).mp isUser
    rw [refs f isUser']
    exact sound.positive f isUser'
  · intro f isUser
    have isUser' := (users f).mp isUser
    rw [refs f isUser']
    have := sound.bounded f isUser'
    omega

/-- Exactness and debts may be forgotten. -/
theorem Sound.forget (sound : Sound exact owed base g) : Sound false nothing base g := by
  refine { sound with count := ?_, exactly := ?_ }
  · intro f isUser
    have := sound.count f isUser
    simp only [nothing]
    omega
  · intro impossible
    cases impossible

end

/-! ### One leaf -/

section
variable {exact : Bool} {owed : Nat → Nat} {base : Nat} {g : Ledger} {r n : Nat} {e : PTEntry}

theorem leaf_setLeaf_self (g : Ledger) (r n : Nat) (e : PTEntry) : ((setLeaf g r n e).tree r).leaf n = e := by
  simp [setLeaf]

theorem leaf_setLeaf_other (g : Ledger) {r n q k : Nat} (e : PTEntry) (other : ¬ (q = r ∧ k = n)) :
    ((setLeaf g r n e).tree q).leaf k = (g.tree q).leaf k := by
  by_cases same : q = r
  · subst same
    have different : k ≠ n := fun equal => other ⟨rfl,equal⟩
    simp [setLeaf,Function.update_of_ne different]
  · simp [setLeaf,Function.update_of_ne same]

theorem setLeaf_setLeaf (g : Ledger) (r n : Nat) (e d : PTEntry) : setLeaf (setLeaf g r n e) r n d = setLeaf g r n d := by
  simp [setLeaf]

theorem setLeaf_give (g : Ledger) (r n f : Nat) (e : PTEntry) (o : Owner) :
    setLeaf (g.give f o) r n e = (setLeaf g r n e).give f o := rfl

/-- The user leaves elsewhere. -/
theorem userLeaf_setLeaf_other {q k : Nat} {d : PTEntry} (other : ¬ (q = r ∧ k = n)) :
    UserLeaf (setLeaf g r n e) q k d ↔ UserLeaf g q k d := by
  constructor
  · intro leaf
    exact ⟨leaf.root,leaf.inside,by rw [← leaf_setLeaf_other g e other]; exact leaf.entry,leaf.valid,leaf.user⟩
  · intro leaf
    exact ⟨leaf.root,leaf.inside,by rw [leaf_setLeaf_other g e other]; exact leaf.entry,leaf.valid,leaf.user⟩

theorem userLeaf_setLeaf_self {d : PTEntry} (leaf : UserLeaf (setLeaf g r n e) r n d) : d = e := by
  rw [← leaf.entry,leaf_setLeaf_self]

/-- A page without a user leaf maps nothing. -/
theorem mappers_setLeaf_clear {f : Nat} (clear : ¬ (is_valid e = true ∧ is_u e = true ∧ ppn_to_addr e = f)) :
    mappers (setLeaf g r n e) f = mappers g f \ {(r,n)} := by
  ext ⟨q,k⟩
  simp only [mappers,Set.mem_ofPred_eq,Set.mem_sdiff,Set.mem_singleton_iff,Prod.mk.injEq]
  by_cases here : q = r ∧ k = n
  · obtain ⟨rfl,rfl⟩ := here
    simp only [and_self,not_true,and_false,iff_false]
    rintro ⟨d,leaf,names⟩
    have equal := userLeaf_setLeaf_self leaf
    subst equal
    exact clear ⟨leaf.valid,leaf.user,names⟩
  · simp only [userLeaf_setLeaf_other here,here,not_false_iff,and_true]

theorem mappers_setLeaf_set {f : Nat} (root : g.own r = .root) (inside : n < 2^27) (valid : is_valid e = true)
    (user : is_u e = true) (names : ppn_to_addr e = f) :
    mappers (setLeaf g r n e) f = insert (r,n) (mappers g f) := by
  ext ⟨q,k⟩
  simp only [mappers,Set.mem_ofPred_eq,Set.mem_insert_iff,Prod.mk.injEq]
  by_cases here : q = r ∧ k = n
  · obtain ⟨rfl,rfl⟩ := here
    simp only [and_self,true_or,iff_true]
    exact ⟨e,⟨root,inside,leaf_setLeaf_self g q k e,valid,user⟩,names⟩
  · simp only [userLeaf_setLeaf_other here,here,false_or]

theorem notMem_mappers {f : Nat} (empty : ∀ d, ¬ UserLeaf g r n d) : (r,n) ∉ mappers g f := by
  rintro ⟨d,leaf,_⟩
  exact empty d leaf

/-! ### What keeps the invariant -/

/-- A leaf that changes its marks and stays on its frame. -/
theorem Sound.replace (sound : Sound exact owed base g) {d : PTEntry} (leaf : UserLeaf g r n d) (valid : is_valid e = true)
    (user : is_u e = true) (names : ppn_to_addr e = ppn_to_addr d) (shape : Shape e)
    (alone : is_w e = true → ∀ {q k c}, UserLeaf g q k c → ppn_to_addr c = ppn_to_addr d → q = r) :
    Sound exact owed base (setLeaf g r n e) := by
  -- Every user leaf of the new ledger stands where one with the same frame stood.
  have old : ∀ {q k c}, UserLeaf (setLeaf g r n e) q k c →
      ∃ b, UserLeaf g q k b ∧ ppn_to_addr c = ppn_to_addr b ∧ ((q = r ∧ k = n ∧ c = e) ∨ (¬ (q = r ∧ k = n) ∧ c = b)) := by
    intro q k c new
    by_cases here : q = r ∧ k = n
    · obtain ⟨rfl,rfl⟩ := here
      have equal := userLeaf_setLeaf_self new
      subst equal
      exact ⟨d,leaf,names,.inl ⟨rfl,rfl,rfl⟩⟩
    · exact ⟨c,(userLeaf_setLeaf_other here).mp new,rfl,.inr ⟨here,rfl⟩⟩
  have maps : ∀ f, mappers (setLeaf g r n e) f = mappers g f := by
    intro f
    by_cases mine : ppn_to_addr e = f
    · rw [mappers_setLeaf_set leaf.root leaf.inside valid user mine]
      exact Set.insert_eq_of_mem ⟨d,leaf,by rw [← names]; exact mine⟩
    · rw [mappers_setLeaf_clear fun both => mine both.2.2]
      refine Set.sdiff_singleton_eq_self ?_
      rintro ⟨c,other,same⟩
      rw [leaf.unique other] at names
      exact mine (names.trans same)
  refine ⟨?_,?_,?_,?_,?_,?_,?_,sound.positive,sound.bounded,sound.others,sound.roots,?_,?_⟩
  · intro q k c new
    obtain ⟨b,before,_⟩ := old new
    exact sound.low before
  · intro q k c new
    obtain ⟨b,before,_,⟨_,_,rfl⟩ | ⟨_,rfl⟩⟩ := old new
    · exact shape
    · exact sound.shape before
  · intro q k c new
    obtain ⟨b,before,same,_⟩ := old new
    rw [same]
    exact sound.user before
  · intro q k c q' k' c' new new' same
    obtain ⟨b,before,equal,_⟩ := old new
    obtain ⟨b',before',equal',_⟩ := old new'
    exact sound.page before before' (by rw [← equal,← equal']; exact same)
  · intro q k c q' k' c' new new' same writable
    obtain ⟨b,before,equal,mine⟩ := old new
    obtain ⟨b',before',equal',_⟩ := old new'
    have frames : ppn_to_addr b = ppn_to_addr b' := by rw [← equal,← equal']; exact same
    rcases mine with ⟨rfl,rfl,rfl⟩ | ⟨_,rfl⟩
    · exact alone writable before' (by rw [← equal',← same]; exact names)
    · exact sound.alone before before' frames writable
  · intro f isUser
    rw [maps]
    exact sound.count f isUser
  · intro yes f isUser
    rw [maps]
    exact sound.exactly yes f isUser
  · intro q k isRoot low other
    by_cases here : q = r ∧ k = n
    · obtain ⟨rfl,rfl⟩ := here
      rw [leaf_setLeaf_self] at other
      exact absurd ⟨valid,user⟩ other
    · rw [leaf_setLeaf_other g e here] at other ⊢
      exact sound.plain q k isRoot low other
  · intro q k isRoot high inside
    by_cases here : q = r ∧ k = n
    · obtain ⟨rfl,rfl⟩ := here
      have := sound.low leaf
      omega
    · rw [leaf_setLeaf_other g e here]
      exact sound.upper q k isRoot high inside

theorem drop_own {f x : Nat} : (g.drop f).own x = if x = f ∧ g.refs f = 1 then .free else g.own x := by
  unfold Ledger.drop
  by_cases last : g.refs f = 1
  · rw [if_pos last]
    by_cases same : x = f
    · subst same; simp [Ledger.release,last]
    · simp [Ledger.release,same]
  · rw [if_neg last,if_neg (fun both => last both.2)]
    rfl

theorem drop_refs {f x : Nat} : (g.drop f).refs x = if x = f then g.refs f-1 else g.refs x := by
  unfold Ledger.drop
  by_cases last : g.refs f = 1
  · rw [if_pos last]
    by_cases same : x = f
    · subst same; simp [Ledger.release,last]
    · simp [Ledger.release,same]
  · rw [if_neg last]
    by_cases same : x = f
    · subst same; simp [Ledger.count]
    · simp [Ledger.count,same]

theorem drop_tree {f : Nat} : (g.drop f).tree = g.tree := by
  unfold Ledger.drop; split <;> rfl

theorem drop_next {f : Nat} : (g.drop f).next = g.next := by
  unfold Ledger.drop; split <;> rfl

/-- The frame of a leaf is no root, so that dropping it keeps all roots. -/
theorem Sound.drop_root (sound : Sound exact owed base g) {d : PTEntry} (leaf : UserLeaf g r n d) {q : Nat} :
    (g.drop (ppn_to_addr d)).own q = .root ↔ g.own q = .root := by
  rw [drop_own]
  by_cases last : q = ppn_to_addr d ∧ g.refs (ppn_to_addr d) = 1
  · rw [if_pos last,last.1,sound.user leaf]
    simp
  · rw [if_neg last]

/-- A page that is unmapped, with its reference. -/
theorem Sound.unmap (sound : Sound exact owed base g) {d : PTEntry} (leaf : UserLeaf g r n d)
    (settled : owed (ppn_to_addr d) = 0) :
    Sound exact owed base (setLeaf (g.drop (ppn_to_addr d)) r n 0) := by
  have isUser := sound.user leaf
  have root : ∀ {q}, (g.drop (ppn_to_addr d)).own q = .root ↔ g.own q = .root := sound.drop_root leaf
  have finite := fun f => mappers_finite sound.roots f
  have leaves : ∀ {q k c}, UserLeaf (setLeaf (g.drop (ppn_to_addr d)) r n 0) q k c → UserLeaf g q k c ∧ ¬ (q = r ∧ k = n) := by
    intro q k c new
    have other : ¬ (q = r ∧ k = n) := by
      rintro ⟨rfl,rfl⟩
      have equal := userLeaf_setLeaf_self new
      subst equal
      exact absurd new.valid (by decide)
    have before := (userLeaf_setLeaf_other other).mp new
    exact ⟨⟨root.mp before.root,before.inside,by rw [← drop_tree (f := ppn_to_addr d)]; exact before.entry,before.valid,
      before.user⟩,other⟩
  have maps : ∀ f, mappers (setLeaf (g.drop (ppn_to_addr d)) r n 0) f = mappers g f \ {(r,n)} := by
    intro f
    rw [mappers_setLeaf_clear (by rintro ⟨valid,_⟩; exact absurd valid (by decide))]
    congr 1
    ext p
    simp only [mappers,Set.mem_ofPred_eq]
    constructor
    · rintro ⟨c,new,same⟩
      exact ⟨c,⟨root.mp new.root,new.inside,by rw [← drop_tree (f := ppn_to_addr d)]; exact new.entry,new.valid,new.user⟩,same⟩
    · rintro ⟨c,new,same⟩
      exact ⟨c,⟨root.mpr new.root,new.inside,by rw [drop_tree]; exact new.entry,new.valid,new.user⟩,same⟩
  have member : (r,n) ∈ mappers g (ppn_to_addr d) := ⟨d,leaf,rfl⟩
  have fewer := Set.ncard_sdiff_singleton_add_one member (finite _)
  have positive := sound.positive _ isUser
  have count := sound.count _ isUser
  have same : ∀ {f}, f ≠ ppn_to_addr d → (mappers g f \ {(r,n)}) = mappers g f := by
    intro f other
    refine Set.sdiff_singleton_eq_self ?_
    rintro ⟨c,here,names⟩
    rw [leaf.unique here] at other
    exact other names.symm
  -- The frame is still a user frame when other references are left.
  have user : ∀ {f}, (g.drop (ppn_to_addr d)).own f = .user ↔ g.own f = .user ∧ (f = ppn_to_addr d → g.refs f ≠ 1) := by
    intro f
    rw [drop_own]
    by_cases last : f = ppn_to_addr d ∧ g.refs (ppn_to_addr d) = 1
    · rw [if_pos last]
      simp only [reduceCtorEq,false_iff,not_and,not_forall]
      intro _
      exact ⟨last.1,by rw [last.1,last.2]; simp⟩
    · rw [if_neg last]
      constructor
      · intro here
        exact ⟨here,by rintro rfl one; exact last ⟨rfl,one⟩⟩
      · exact fun both => both.1
  refine ⟨fun new => sound.low (leaves new).1,fun new => sound.shape (leaves new).1,?_,
    fun new new' => sound.page (leaves new).1 (leaves new').1,fun new new' => sound.alone (leaves new).1 (leaves new').1,
    ?_,?_,?_,?_,?_,?_,?_,?_⟩
  · intro q k c new
    obtain ⟨before,other⟩ := leaves new
    refine user.mpr ⟨sound.user before,fun names one => ?_⟩
    -- Two leaves on the frame mean two references.
    by_cases roots : q = r
    · subst roots
      exact other ⟨rfl,sound.page before leaf names⟩
    · have := sound.two leaf before names.symm roots
      rw [names] at one
      omega
  · intro f here
    obtain ⟨isUserF,more⟩ := user.mp here
    rw [maps]
    change _ ≤ (g.drop (ppn_to_addr d)).refs f
    rw [drop_refs]
    by_cases mine : f = ppn_to_addr d
    · subst mine
      rw [if_pos rfl]
      omega
    · rw [if_neg mine,same mine]
      exact sound.count f isUserF
  · intro yes f here
    obtain ⟨isUserF,more⟩ := user.mp here
    have equal := sound.exactly yes f isUserF
    rw [maps]
    change _ = (g.drop (ppn_to_addr d)).refs f
    rw [drop_refs]
    by_cases mine : f = ppn_to_addr d
    · subst mine
      rw [if_pos rfl]
      omega
    · rw [if_neg mine,same mine]
      exact equal
  · intro f here
    obtain ⟨isUserF,more⟩ := user.mp here
    have one := sound.positive f isUserF
    change 1 ≤ (g.drop (ppn_to_addr d)).refs f
    rw [drop_refs]
    by_cases mine : f = ppn_to_addr d
    · subst mine
      rw [if_pos rfl]
      have := more rfl
      omega
    · rw [if_neg mine]
      exact one
  · intro f here
    obtain ⟨isUserF,_⟩ := user.mp here
    have few := sound.bounded f isUserF
    change (g.drop (ppn_to_addr d)).refs f ≤ ((g.drop (ppn_to_addr d)).next-base)/4096
    rw [drop_refs,drop_next]
    by_cases mine : f = ppn_to_addr d
    · subst mine
      rw [if_pos rfl]
      omega
    · rw [if_neg mine]
      exact few
  · intro f notUser held
    have notUser' : (g.drop (ppn_to_addr d)).own f ≠ .user := notUser
    have held' : (g.drop (ppn_to_addr d)).own f ≠ .none := held
    change (g.drop (ppn_to_addr d)).refs f = if (g.drop (ppn_to_addr d)).own f = .free then 0 else 1
    rw [drop_own] at notUser' held'
    rw [drop_refs,drop_own]
    by_cases last : f = ppn_to_addr d ∧ g.refs (ppn_to_addr d) = 1
    · rw [if_pos last,if_pos last.1]
      simp [last.2]
    · rw [if_neg last] at notUser' held' ⊢
      have other : f ≠ ppn_to_addr d := by
        rintro rfl
        exact notUser' isUser
      rw [if_neg other]
      exact sound.others f notUser' held'
  · intro q here
    exact sound.roots q (root.mp here)
  · intro q k here low other
    have isRoot := root.mp here
    by_cases place : q = r ∧ k = n
    · obtain ⟨rfl,rfl⟩ := place
      exact .inl (leaf_setLeaf_self _ _ _ _)
    · rw [leaf_setLeaf_other _ _ place,drop_tree] at other ⊢
      exact sound.plain q k isRoot low other
  · intro q k here high inside
    have isRoot := root.mp here
    by_cases place : q = r ∧ k = n
    · obtain ⟨rfl,rfl⟩ := place
      rw [leaf_setLeaf_self]
      decide
    · rw [leaf_setLeaf_other _ _ place,drop_tree]
      exact sound.upper q k isRoot high inside

/-- A new frame for a page that had none. -/
theorem Sound.map (sound : Sound exact owed base g) {f : Nat} (temp : g.own f = .temp) (settled : owed f = 0)
    (started : base+4096 ≤ g.next) (root : g.own r = .root) (low : n < 2^19) (empty : ∀ d, ¬ UserLeaf g r n d)
    (valid : is_valid e = true) (user : is_u e = true) (names : ppn_to_addr e = f) (shape : Shape e) :
    Sound exact owed base (setLeaf (g.give f .user) r n e) := by
  have fresh : ∀ {q k c}, UserLeaf g q k c → ppn_to_addr c ≠ f := by
    intro q k c leaf equal
    have := sound.user leaf
    rw [equal,temp] at this
    cases this
  have roots : ∀ {q}, (g.give f .user).own q = .root ↔ g.own q = .root := by
    intro q
    by_cases same : q = f
    · subst same; simp [Ledger.give,temp]
    · simp [Ledger.give,Function.update_of_ne same]
  have kept : ∀ {q k c}, UserLeaf (g.give f .user) q k c ↔ UserLeaf g q k c := by
    intro q k c
    constructor
    · intro leaf; exact ⟨roots.mp leaf.root,leaf.inside,leaf.entry,leaf.valid,leaf.user⟩
    · intro leaf; exact ⟨roots.mpr leaf.root,leaf.inside,leaf.entry,leaf.valid,leaf.user⟩
  have cases : ∀ {q k c}, UserLeaf (setLeaf (g.give f .user) r n e) q k c →
      (q = r ∧ k = n ∧ c = e) ∨ (¬ (q = r ∧ k = n) ∧ UserLeaf g q k c) := by
    intro q k c leaf
    by_cases here : q = r ∧ k = n
    · obtain ⟨rfl,rfl⟩ := here
      exact .inl ⟨rfl,rfl,userLeaf_setLeaf_self leaf⟩
    · exact .inr ⟨here,kept.mp ((userLeaf_setLeaf_other here).mp leaf)⟩
  have same : ∀ {h}, h ≠ f → mappers (setLeaf (g.give f .user) r n e) h = mappers g h := by
    intro h other
    rw [mappers_setLeaf_clear fun both => other (both.2.2.symm.trans names)]
    have before : mappers (g.give f .user) h = mappers g h := by
      ext p
      simp only [mappers,Set.mem_ofPred_eq,kept]
    rw [before]
    exact Set.sdiff_singleton_eq_self (notMem_mappers empty)
  have single : mappers (setLeaf (g.give f .user) r n e) f = {(r,n)} := by
    rw [mappers_setLeaf_set (roots.mpr root) (by omega) valid user names]
    have none : mappers (g.give f .user) f = ∅ := by
      ext p
      simp only [mappers,Set.mem_ofPred_eq,kept,Set.mem_empty_iff_false,iff_false]
      rintro ⟨c,leaf,equal⟩
      exact fresh leaf equal
    rw [none]
    exact insert_empty_eq _
  have one : g.refs f = 1 := by
    have := sound.others f (by rw [temp]; simp) (by rw [temp]; simp)
    simpa [temp] using this
  have users : ∀ {h}, h ≠ f → ((setLeaf (g.give f .user) r n e).own h = .user ↔ g.own h = .user) := by
    intro h other
    simp [setLeaf,Ledger.give,Function.update_of_ne other]
  refine ⟨?_,?_,?_,?_,?_,?_,?_,?_,?_,?_,?_,?_,?_⟩
  · intro q k c leaf
    rcases cases leaf with ⟨rfl,rfl,rfl⟩ | ⟨_,before⟩
    · exact low
    · exact sound.low before
  · intro q k c leaf
    rcases cases leaf with ⟨rfl,rfl,rfl⟩ | ⟨_,before⟩
    · exact shape
    · exact sound.shape before
  · intro q k c leaf
    rcases cases leaf with ⟨rfl,rfl,rfl⟩ | ⟨_,before⟩
    · rw [names]
      simp [setLeaf,Ledger.give]
    · exact (users (fresh before)).mpr (sound.user before)
  · intro q k c q' k' c' leaf leaf' equal
    rcases cases leaf with ⟨rfl,rfl,rfl⟩ | ⟨_,before⟩
    · rcases cases leaf' with ⟨rfl,rfl,rfl⟩ | ⟨_,before'⟩
      · rfl
      · exact absurd (equal.symm.trans names) (fresh before')
    · rcases cases leaf' with ⟨rfl,rfl,rfl⟩ | ⟨_,before'⟩
      · exact absurd (equal.trans names) (fresh before)
      · exact sound.page before before' equal
  · intro q k c q' k' c' leaf leaf' equal writable
    rcases cases leaf with ⟨rfl,rfl,rfl⟩ | ⟨_,before⟩
    · rcases cases leaf' with ⟨rfl,rfl,rfl⟩ | ⟨_,before'⟩
      · rfl
      · exact absurd (equal.symm.trans names) (fresh before')
    · rcases cases leaf' with ⟨rfl,rfl,rfl⟩ | ⟨_,before'⟩
      · exact absurd (equal.trans names) (fresh before)
      · exact sound.alone before before' equal writable
  · intro h isUser
    by_cases mine : h = f
    · subst mine
      rw [single,Set.ncard_singleton,settled]
      exact one.ge
    · rw [same mine]
      exact sound.count h ((users mine).mp isUser)
  · intro yes h isUser
    by_cases mine : h = f
    · subst mine
      rw [single,Set.ncard_singleton,settled]
      exact one.symm
    · rw [same mine]
      exact sound.exactly yes h ((users mine).mp isUser)
  · intro h isUser
    by_cases mine : h = f
    · subst mine
      exact one.ge
    · exact sound.positive h ((users mine).mp isUser)
  · intro h isUser
    by_cases mine : h = f
    · subst mine
      change g.refs h ≤ (g.next-base)/4096
      rw [one]
      omega
    · exact sound.bounded h ((users mine).mp isUser)
  · intro h notUser held
    have other : h ≠ f := by
      rintro rfl
      simp [setLeaf,Ledger.give] at notUser
    simp only [setLeaf,Ledger.give,Function.update_of_ne other] at notUser held ⊢
    exact sound.others h notUser held
  · intro q isRoot
    exact sound.roots q (roots.mp isRoot)
  · intro q k isRoot lowK other
    by_cases here : q = r ∧ k = n
    · obtain ⟨rfl,rfl⟩ := here
      rw [leaf_setLeaf_self] at other
      exact absurd ⟨valid,user⟩ other
    · rw [leaf_setLeaf_other _ e here] at other ⊢
      exact sound.plain q k (roots.mp isRoot) lowK other
  · intro q k isRoot high inside
    by_cases here : q = r ∧ k = n
    · omega
    · rw [leaf_setLeaf_other _ e here]
      exact sound.upper q k (roots.mp isRoot) high inside

/-- One reference to a frame is owed. -/
def owe (f : Nat) : Nat → Nat := fun x => if x = f then 1 else 0

/-- A reference taken for a leaf to come. -/
theorem Sound.owing (sound : Sound exact nothing base g) {f : Nat} (isUser : g.own f = .user)
    (few : g.refs f+1 ≤ (g.next-base)/4096) : Sound exact (owe f) base (g.count f (g.refs f+1)) := by
  have kept : ∀ {q k c}, UserLeaf (g.count f (g.refs f+1)) q k c ↔ UserLeaf g q k c :=
    fun {q k c} => ⟨fun h => ⟨h.root,h.inside,h.entry,h.valid,h.user⟩,fun h => ⟨h.root,h.inside,h.entry,h.valid,h.user⟩⟩
  have maps : ∀ h, mappers (g.count f (g.refs f+1)) h = mappers g h := by
    intro h
    ext p
    simp only [mappers,Set.mem_ofPred_eq,kept]
  have refs : ∀ {h}, h ≠ f → (g.count f (g.refs f+1)).refs h = g.refs h := by
    intro h other
    simp [Ledger.count,Function.update_of_ne other]
  have mine : (g.count f (g.refs f+1)).refs f = g.refs f+1 := by simp [Ledger.count]
  refine ⟨fun h => sound.low (kept.mp h),fun h => sound.shape (kept.mp h),fun h => sound.user (kept.mp h),
    fun h h' => sound.page (kept.mp h) (kept.mp h'),fun h h' => sound.alone (kept.mp h) (kept.mp h'),?_,?_,?_,?_,?_,
    sound.roots,sound.plain,sound.upper⟩
  · intro h isUserH
    have count := sound.count h isUserH
    rw [maps]
    by_cases same : h = f
    · subst same
      rw [mine]
      simp only [owe,nothing,if_true] at count ⊢
      omega
    · rw [refs same]
      simp only [owe,same,if_false,nothing] at count ⊢
      exact count
  · intro yes h isUserH
    have count := sound.exactly yes h isUserH
    rw [maps]
    by_cases same : h = f
    · subst same
      rw [mine]
      simp only [owe,nothing,if_true] at count ⊢
      omega
    · rw [refs same]
      simp only [owe,same,if_false,nothing] at count ⊢
      exact count
  · intro h isUserH
    by_cases same : h = f
    · subst same
      rw [mine]
      omega
    · rw [refs same]
      exact sound.positive h isUserH
  · intro h isUserH
    by_cases same : h = f
    · subst same
      rw [mine]
      exact few
    · rw [refs same]
      exact sound.bounded h isUserH
  · intro h notUser held
    have other : h ≠ f := by
      rintro rfl
      exact notUser isUser
    rw [refs other]
    exact sound.others h notUser held

/-- A frame that another root maps at the same page, without the right to write. -/
theorem Sound.share {c : Nat} (sound : Sound exact (owe (ppn_to_addr e)) base g) (leaf : UserLeaf g r n e)
    (readonly : is_w e = false) (root : g.own c = .root) (empty : ∀ d, ¬ UserLeaf g c n d) :
    Sound exact nothing base (setLeaf g c n e) := by
  have isUser := sound.user leaf
  have cases : ∀ {q k d}, UserLeaf (setLeaf g c n e) q k d →
      (q = c ∧ k = n ∧ d = e) ∨ (¬ (q = c ∧ k = n) ∧ UserLeaf g q k d) := by
    intro q k d new
    by_cases here : q = c ∧ k = n
    · obtain ⟨rfl,rfl⟩ := here
      exact .inl ⟨rfl,rfl,userLeaf_setLeaf_self new⟩
    · exact .inr ⟨here,(userLeaf_setLeaf_other here).mp new⟩
  have other : ∀ {h}, h ≠ ppn_to_addr e → mappers (setLeaf g c n e) h = mappers g h := by
    intro h different
    rw [mappers_setLeaf_clear fun both => different both.2.2.symm]
    exact Set.sdiff_singleton_eq_self (notMem_mappers empty)
  have more : (mappers (setLeaf g c n e) (ppn_to_addr e)).ncard = (mappers g (ppn_to_addr e)).ncard+1 := by
    rw [mappers_setLeaf_set root leaf.inside leaf.valid leaf.user rfl]
    exact Set.ncard_insert_of_notMem (notMem_mappers empty) (mappers_finite sound.roots _)
  -- Nobody may write to a frame that has this leaf.
  have nobody : ∀ {q k d}, UserLeaf g q k d → ppn_to_addr d = ppn_to_addr e → is_w d = true → False := by
    intro q k d new same writable
    have equal := sound.alone new leaf same writable
    subst equal
    have place := sound.page new leaf same
    subst place
    rw [new.unique leaf,readonly] at writable
    cases writable
  refine ⟨?_,?_,?_,?_,?_,?_,?_,sound.positive,sound.bounded,sound.others,sound.roots,?_,?_⟩
  · intro q k d new
    rcases cases new with ⟨rfl,rfl,rfl⟩ | ⟨_,before⟩
    · exact sound.low leaf
    · exact sound.low before
  · intro q k d new
    rcases cases new with ⟨rfl,rfl,rfl⟩ | ⟨_,before⟩
    · exact sound.shape leaf
    · exact sound.shape before
  · intro q k d new
    rcases cases new with ⟨rfl,rfl,rfl⟩ | ⟨_,before⟩
    · exact isUser
    · exact sound.user before
  · intro q k d q' k' d' new new' same
    rcases cases new with ⟨rfl,rfl,rfl⟩ | ⟨_,before⟩
    · rcases cases new' with ⟨rfl,rfl,rfl⟩ | ⟨_,before'⟩
      · rfl
      · exact sound.page leaf before' same
    · rcases cases new' with ⟨rfl,rfl,rfl⟩ | ⟨_,before'⟩
      · exact sound.page before leaf same
      · exact sound.page before before' same
  · intro q k d q' k' d' new new' same writable
    rcases cases new with ⟨rfl,rfl,rfl⟩ | ⟨_,before⟩
    · rw [readonly] at writable
      cases writable
    · rcases cases new' with ⟨rfl,rfl,rfl⟩ | ⟨_,before'⟩
      · exact (nobody before same writable).elim
      · exact sound.alone before before' same writable
  · intro h isUserH
    have count := sound.count h isUserH
    by_cases mine : h = ppn_to_addr e
    · subst mine
      rw [more]
      change _ ≤ g.refs (ppn_to_addr e)
      simp only [owe,if_true,nothing] at count ⊢
      omega
    · rw [other mine]
      simp only [owe,mine,if_false,nothing] at count ⊢
      exact count
  · intro yes h isUserH
    have count := sound.exactly yes h isUserH
    by_cases mine : h = ppn_to_addr e
    · subst mine
      rw [more]
      change _ = g.refs (ppn_to_addr e)
      simp only [owe,if_true,nothing] at count ⊢
      omega
    · rw [other mine]
      simp only [owe,mine,if_false,nothing] at count ⊢
      exact count
  · intro q k isRoot lowK plain
    by_cases here : q = c ∧ k = n
    · obtain ⟨rfl,rfl⟩ := here
      rw [leaf_setLeaf_self] at plain
      exact absurd ⟨leaf.valid,leaf.user⟩ plain
    · rw [leaf_setLeaf_other _ e here] at plain ⊢
      exact sound.plain q k isRoot lowK plain
  · intro q k isRoot high inside
    by_cases here : q = c ∧ k = n
    · obtain ⟨rfl,rfl⟩ := here
      have := sound.low leaf
      omega
    · rw [leaf_setLeaf_other _ e here]
      exact sound.upper q k isRoot high inside

/-- The leaf of the console device, which is no user page. -/
theorem Sound.set_device (sound : Sound exact owed base g) {c : Nat} (empty : ∀ d, ¬ UserLeaf g c devicePage d) :
    Sound exact owed base (setLeaf g c devicePage deviceLeaf) := by
  have leaves : ∀ {q k d}, UserLeaf (setLeaf g c devicePage deviceLeaf) q k d ↔ UserLeaf g q k d := by
    intro q k d
    by_cases here : q = c ∧ k = devicePage
    · obtain ⟨rfl,rfl⟩ := here
      constructor
      · intro leaf
        have := userLeaf_setLeaf_self leaf
        subst this
        exact absurd leaf.user (by decide)
      · exact fun leaf => absurd leaf (empty d)
    · exact userLeaf_setLeaf_other here
  refine sound.transfer leaves (fun _ => .rfl) (fun _ _ => rfl) (le_refl _) sound.others sound.roots ?_ ?_
  · intro q k isRoot low other
    by_cases here : q = c ∧ k = devicePage
    · obtain ⟨rfl,rfl⟩ := here
      exact .inr ⟨rfl,leaf_setLeaf_self _ _ _ _⟩
    · rw [leaf_setLeaf_other _ _ here] at other ⊢
      exact sound.plain q k isRoot low other
  · intro q k isRoot high inside
    by_cases here : q = c ∧ k = devicePage
    · obtain ⟨rfl,rfl⟩ := here
      rw [leaf_setLeaf_self]
      decide
    · rw [leaf_setLeaf_other _ _ here]
      exact sound.upper q k isRoot high inside

/-! ### Changes that no leaf sees -/

/-- The same leaves, roots and user frames. -/
theorem Sound.unseen (sound : Sound exact owed base g) {g' : Ledger} (roots : ∀ q, g'.own q = .root ↔ g.own q = .root)
    (leaf : ∀ q, g.own q = .root → (g'.tree q).leaf = (g.tree q).leaf) (users : ∀ f, g'.own f = .user ↔ g.own f = .user)
    (refs : ∀ f, g.own f = .user → g'.refs f = g.refs f) (next : g.next ≤ g'.next)
    (others : ∀ f, g'.own f ≠ .user → g'.own f ≠ .none → g'.refs f = if g'.own f = .free then 0 else 1) :
    Sound exact owed base g' := by
  refine sound.transfer ?_ users refs next others (fun q here => sound.roots q ((roots q).mp here)) ?_ ?_
  · intro q k c
    constructor
    · intro new
      have isRoot := (roots q).mp new.root
      exact ⟨isRoot,new.inside,by rw [← leaf q isRoot]; exact new.entry,new.valid,new.user⟩
    · intro old
      exact ⟨(roots q).mpr old.root,old.inside,by rw [leaf q old.root]; exact old.entry,old.valid,old.user⟩
  · intro q k here
    have isRoot := (roots q).mp here
    rw [leaf q isRoot]
    exact sound.plain q k isRoot
  · intro q k here
    have isRoot := (roots q).mp here
    rw [leaf q isRoot]
    exact sound.upper q k isRoot

theorem Sound.grow (sound : Sound exact owed base g) {g' : Ledger} {q k : Nat} (grows : Grows q k g g') :
    Sound exact owed base g' := by
  have keep : ∀ {x : Nat} {o : Owner}, o ≠ .free → o ≠ .none → (∀ v, o ≠ .l2 q v) → (∀ i, o ≠ .l1 q i) →
      (g'.own x = o ↔ g.own x = o) := by
    intro x o used some_owner not2 not1
    rcases grows.own x with same | ⟨old,new,_⟩
    · rw [same]
    · constructor
      · intro here
        rcases new with ⟨v,table⟩ | ⟨i,table⟩
        · exact absurd (here.symm.trans table) (not2 v)
        · exact absurd (here.symm.trans table) (not1 i)
      · intro here
        rw [here] at old
        rcases old with h | h
        · exact absurd h used
        · exact absurd h some_owner
  have users : ∀ f, g'.own f = .user ↔ g.own f = .user := fun f => keep (by simp) (by simp) (by simp) (by simp)
  refine sound.unseen (fun x => keep (by simp) (by simp) (by simp) (by simp)) (fun x _ => grows.leaf x) users ?_ grows.next ?_
  · intro f isUser
    exact grows.refs f (((users f).mpr isUser).trans isUser.symm)
  · intro f notUser held
    rcases grows.own f with same | ⟨_,new,one⟩
    · rw [grows.refs f same]
      rw [same] at notUser held ⊢
      exact sound.others f notUser held
    · rw [one,if_neg]
      rcases new with ⟨v,table⟩ | ⟨i,table⟩
      · rw [table]; simp
      · rw [table]; simp

theorem Sound.take (sound : Sound exact owed base g) {f : Nat} (unused : g.own f = .free ∨ g.own f = .none) :
    Sound exact owed base (g.take f) := by
  have other : ∀ {x : Nat} {o : Owner}, o ≠ .free → o ≠ .none → o ≠ .temp → ((g.take f).own x = o ↔ g.own x = o) := by
    intro x o used some_owner placed
    by_cases same : x = f
    · subst same
      constructor
      · intro here
        simp only [Ledger.take,Function.update_self] at here
        exact absurd here.symm placed
      · intro here
        rw [here] at unused
        rcases unused with h | h
        · exact absurd h used
        · exact absurd h some_owner
    · simp [Ledger.take,Function.update_of_ne same]
  refine sound.unseen (fun x => other (by simp) (by simp) (by simp)) (fun _ _ => rfl)
    (fun x => other (by simp) (by simp) (by simp)) ?_ ?_ ?_
  · intro x isUser
    have different : x ≠ f := by
      rintro rfl
      rw [isUser] at unused
      rcases unused with h | h <;> cases h
    simp [Ledger.take,Function.update_of_ne different]
  · simp only [Ledger.take]
    split <;> omega
  · intro x notUser held
    by_cases same : x = f
    · subst same
      simp [Ledger.take]
    · simp only [Ledger.take,Function.update_of_ne same] at notUser held ⊢
      exact sound.others x notUser held

/-- A frame without a leaf that is put back. -/
theorem Sound.release (sound : Sound exact owed base g) {f : Nat} (notUser : g.own f ≠ .user) (notRoot : g.own f ≠ .root) :
    Sound exact owed base (g.release f) := by
  have other : ∀ {x : Nat} {o : Owner}, g.own f ≠ o → o ≠ .free → ((g.release f).own x = o ↔ g.own x = o) := by
    intro x o different used
    by_cases same : x = f
    · subst same
      simp only [Ledger.release,Function.update_self]
      exact ⟨fun here => absurd here.symm used,fun here => absurd here different⟩
    · simp [Ledger.release,Function.update_of_ne same]
  refine sound.unseen (fun x => other notRoot (by simp)) (fun _ _ => rfl) (fun x => other notUser (by simp)) ?_ (le_refl _) ?_
  · intro x isUser
    have different : x ≠ f := by
      rintro rfl
      exact notUser isUser
    simp [Ledger.release,Function.update_of_ne different]
  · intro x notUserX held
    by_cases same : x = f
    · subst same
      simp [Ledger.release]
    · simp only [Ledger.release,Function.update_of_ne same] at notUserX held ⊢
      exact sound.others x notUserX held

theorem Sound.stretch (sound : Sound exact owed base g) {m : Mm} (pool : Pool base m g) (pages : Nat) :
    Sound exact owed base (g.stretch pages) := by
  have unowned : ∀ {x : Nat}, g.next ≤ x → g.own x = .none := by
    intro x above
    by_contra held
    have := ((pool.owned x).mp held).2.2
    omega
  have other : ∀ {x : Nat} {o : Owner}, o ≠ .none → (∀ b, o ≠ .stack b) → ((g.stretch pages).own x = o ↔ g.own x = o) := by
    intro x o some_owner notStack
    simp only [Ledger.stretch]
    split
    · rename_i inside
      rw [unowned inside.2.1]
      exact ⟨fun here => absurd here.symm (notStack _),fun here => absurd here.symm some_owner⟩
    · rfl
  refine sound.unseen (fun x => other (by simp) (by simp)) (fun _ _ => rfl) (fun x => other (by simp) (by simp)) ?_ ?_ ?_
  · intro x isUser
    simp only [Ledger.stretch]
    rw [if_neg]
    rintro ⟨_,above,_⟩
    rw [unowned above] at isUser
    cases isUser
  · simp only [Ledger.stretch]
    omega
  · intro x notUser held
    simp only [Ledger.stretch] at notUser held ⊢
    split
    · simp
    · rename_i outside
      rw [if_neg outside] at notUser held
      exact sound.others x notUser held

/-- A new root has no user leaf. -/
theorem Sound.new_root (sound : Sound exact owed base g) {src f : Nat} (isRoot : g.own src = .root) (temp : g.own f = .temp)
    (bound : f < RAM_END) : Sound exact owed base (newRoot 2 g src f) := by
  have old : ∀ {q : Nat}, q ≠ f → ((newRoot 2 g src f).own q = .root ↔ g.own q = .root) := by
    intro q other
    simp [newRoot,Function.update_of_ne other]
  have tree : ∀ {q : Nat}, q ≠ f → (newRoot 2 g src f).tree q = g.tree q := by
    intro q other
    simp [newRoot,Function.update_of_ne other]
  have leaf : ∀ n, ((newRoot 2 g src f).tree f).leaf n = if n < 2^19 then 0 else (g.tree src).leaf n := by
    intro n
    simp [newRoot]
  have fresh : ∀ {q : Nat}, g.own q = .root → q ≠ f := by
    rintro q here rfl
    rw [temp] at here
    cases here
  refine sound.transfer ?_ ?_ (fun _ _ => rfl) (le_refl _) ?_ ?_ ?_ ?_
  · intro q k c
    by_cases mine : q = f
    · subst mine
      constructor
      · intro new
        exfalso
        have entry := new.entry
        rw [leaf] at entry
        by_cases low : k < 2^19
        · rw [if_pos low] at entry
          have valid := new.valid
          rw [← entry] at valid
          exact absurd valid (by decide)
        · rw [if_neg low] at entry
          have no := sound.upper src k isRoot (by omega) new.inside
          rw [entry,new.user] at no
          cases no
      · intro before
        exact absurd rfl (fresh before.root)
    · constructor
      · intro new
        exact ⟨(old mine).mp new.root,new.inside,by rw [← tree mine]; exact new.entry,new.valid,new.user⟩
      · intro before
        exact ⟨(old mine).mpr before.root,before.inside,by rw [tree mine]; exact before.entry,before.valid,before.user⟩
  · intro x
    by_cases mine : x = f
    · subst mine; simp [newRoot,temp]
    · simp [newRoot,Function.update_of_ne mine]
  · intro x notUser held
    by_cases mine : x = f
    · subst mine
      have := sound.others x (by rw [temp]; simp) (by rw [temp]; simp)
      simpa [newRoot,temp] using this
    · simp only [newRoot,Function.update_of_ne mine] at notUser held ⊢
      exact sound.others x notUser held
  · intro q here
    by_cases mine : q = f
    · rw [mine]; exact bound
    · exact sound.roots q ((old mine).mp here)
  · intro q k here low other
    by_cases mine : q = f
    · subst mine
      exact .inl (by rw [leaf,if_pos low])
    · rw [tree mine] at other ⊢
      exact sound.plain q k ((old mine).mp here) low other
  · intro q k here high inside
    by_cases mine : q = f
    · subst mine
      rw [leaf,if_neg (by omega)]
      exact sound.upper src k isRoot high inside
    · rw [tree mine]
      exact sound.upper q k ((old mine).mp here) high inside

theorem retire_own {q x : Nat} {o : Owner} (used : o ≠ .temp) (here : (retire g q).own x = o) : g.own x = o :=
  retired_eq here used

theorem retire_user {q f : Nat} : (retire g q).own f = .user ↔ g.own f = .user := by
  constructor
  · exact retire_own (by simp)
  · intro here; simp [retire,retired,here]

theorem retire_root {q x : Nat} : (retire g q).own x = .root ↔ g.own x = .root ∧ x ≠ q := by
  constructor
  · intro here
    have before := retire_own (by simp) here
    refine ⟨before,?_⟩
    rintro rfl
    simp [retire,retired,before] at here
  · rintro ⟨before,other⟩
    simp [retire,retired,before,other]

theorem retire_others (sound : Sound exact owed base g) {q : Nat} (f : Nat) (notUser : (retire g q).own f ≠ .user)
    (held : (retire g q).own f ≠ .none) :
    (retire g q).refs f = if (retire g q).own f = .free then 0 else 1 := by
  have notUser' : g.own f ≠ .user := fun here => notUser (retire_user.mpr here)
  have held' : g.own f ≠ .none := fun here => held (by simp [retire,retired,here])
  have before := sound.others f notUser' held'
  change g.refs f = _
  rw [before]
  by_cases isFree : g.own f = .free
  · simp [retire,retired,isFree]
  · rw [if_neg isFree,if_neg fun here => isFree (retire_own (by simp) here)]

/-- A page table without user leaves that is given up. -/
theorem Sound.retire_empty (sound : Sound exact owed base g) {q : Nat} (empty : ∀ n e, ¬ UserLeaf g q n e) :
    Sound exact owed base (retire g q) := by
  refine sound.transfer ?_ (fun f => retire_user) (fun _ _ => rfl) (le_refl _) (retire_others sound)
    (fun x here => sound.roots x (retire_root.mp here).1) (fun x n here => sound.plain x n (retire_root.mp here).1)
    (fun x n here => sound.upper x n (retire_root.mp here).1)
  intro x n e
  constructor
  · intro new
    exact ⟨(retire_root.mp new.root).1,new.inside,new.entry,new.valid,new.user⟩
  · intro old
    refine ⟨retire_root.mpr ⟨old.root,?_⟩,old.inside,old.entry,old.valid,old.user⟩
    rintro rfl
    exact empty n e old

/-- A page table that is given up with its leaves: their references stay. -/
theorem Sound.retire_leaky (sound : Sound exact nothing base g) (q : Nat) : Sound false nothing base (retire g q) := by
  have old : ∀ {x n e}, UserLeaf (retire g q) x n e → UserLeaf g x n e :=
    fun new => ⟨(retire_root.mp new.root).1,new.inside,new.entry,new.valid,new.user⟩
  refine ⟨fun h => sound.low (old h),fun h => sound.shape (old h),fun h => retire_user.mpr (sound.user (old h)),
    fun h h' => sound.page (old h) (old h'),fun h h' => sound.alone (old h) (old h'),?_,by simp,
    fun f here => sound.positive f (retire_user.mp here),fun f here => sound.bounded f (retire_user.mp here),
    retire_others sound,fun x here => sound.roots x (retire_root.mp here).1,
    fun x n here => sound.plain x n (retire_root.mp here).1,fun x n here => sound.upper x n (retire_root.mp here).1⟩
  intro f here
  have count := sound.count f (retire_user.mp here)
  have fewer : (mappers (retire g q) f).ncard ≤ (mappers g f).ncard := by
    refine Set.ncard_le_ncard ?_ (mappers_finite sound.roots f)
    rintro p ⟨e,leaf,names⟩
    exact ⟨e,old leaf,names⟩
  change _ ≤ g.refs f
  omega

end

end Unit00.Mirror
