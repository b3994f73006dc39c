import Unit00.View

/-!
A page table as a finite map from page numbers to leaves. Nothing is assumed of
the rest of memory: the tables under a root are pairwise distinct frames, and
new tables come from a supply of frames that are not in use.
-/
namespace Unit00.Maps
open Unit00.Memory Unit00.Execution Unit00.Frame Unit00.Paging Unit00.Paging.PTEntry Unit00.Trees Unit00.Ownership Unit00.View

/-! ### Well-formed tables -/

/-- The tables under a root form a tree of pairwise distinct frames, without leaves at the two upper levels. -/
structure WellFormed (m : Mem) (r : Nat) (t : Tree) : Prop where
  tree : TreeAt false m r t
  aligned : r%4096 = 0
  root2 : ∀ {v a}, v < 512 → t.l2 v = some a → a ≠ r
  root1 : ∀ {i b}, i < 2^18 → t.l1 i = some b → b ≠ r
  apart : ∀ {v i a}, v < 512 → i < 2^18 → t.l2 v = some a → t.l1 i ≠ some a
  single2 : ∀ {v w a}, v < 512 → w < 512 → t.l2 v = some a → t.l2 w = some a → v = w
  single1 : ∀ {i j b}, i < 2^18 → j < 2^18 → t.l1 i = some b → t.l1 j = some b → i = j

/-- A frame of the tree. -/
def InTree (r : Nat) (t : Tree) (f : Nat) : Prop :=
  f = r ∨ (∃ v, v < 512 ∧ t.l2 v = some f) ∨ ∃ i, i < 2^18 ∧ t.l1 i = some f

theorem entryOf_tree {strict : Bool} {m : Mm} {pt : PageTable} {t : Tree} (tree : TreeAt strict m.mem pt.root t) (va : Nat) :
    entryOf m pt va = (leafSlot t (pageOf va)).map fun _ => t.leaf (pageOf va) := by
  unfold entryOf
  rw [lookup_eq pt tree]
  cases slot : leafSlot t (pageOf va) with
  | none => rfl
  | some entry =>
    obtain ⟨b,table,rfl⟩ := Option.map_eq_some_iff.mp slot
    dsimp only
    rw [tree.low _ b (pageOf_lt va) table]
    rfl

theorem leafAt_tree {strict : Bool} {m : Mm} {pt : PageTable} {t : Tree} (tree : TreeAt strict m.mem pt.root t) (va : Nat) :
    leafAt m pt va = if is_valid (t.leaf (pageOf va)) then some (t.leaf (pageOf va)) else none := by
  unfold leafAt
  rw [entryOf_tree tree]
  cases slot : leafSlot t (pageOf va) with
  | none =>
    have missing : t.l1 (pageOf va/512) = none := Option.map_eq_none_iff.mp slot
    rw [tree.low_none _ (pageOf_lt va) missing,is_valid_zero]
    rfl
  | some entry =>
    rw [Option.map_some,Option.filter_some]

theorem leafAt_congr {m m' : Mm} {pt : PageTable} {t t' : Tree} (tree' : TreeAt false m'.mem pt.root t')
    (tree : TreeAt false m.mem pt.root t) {va : Nat} (same : t'.leaf (pageOf va) = t.leaf (pageOf va)) :
    leafAt m' pt va = leafAt m pt va := by
  rw [leafAt_tree tree',leafAt_tree tree]
  exact congrArg (fun e => if is_valid e then some e else none) same

/-! ### A supply of frames -/

/-- An allocator that hands out page-aligned frames that are not in use, for as long as nothing but frames in use is
    written to. -/
structure Supply (alloc : M (Option Nat)) (Inv : Mm → Prop) (Used : Mm → Nat → Prop) : Prop where
  alloc : ∀ {m}, Inv m → ∃ r m', alloc.run m = .ok r m' ∧ m'.mem = m.mem ∧ Inv m' ∧ (∀ x, Used m x → Used m' x) ∧
    ∀ f, r = some f → f%4096 = 0 ∧ f < 2^56 ∧ ¬ Used m f ∧ Used m' f
  write : ∀ {m mem}, Inv m → Confined (Used m) m.mem mem → Inv { m with mem := mem } ∧ ∀ x, Used m x → Used { m with mem := mem } x

/-- A well-formed table whose frames are in use. -/
structure Holding (Inv : Mm → Prop) (Used : Mm → Nat → Prop) (m : Mm) (r : Nat) (t : Tree) : Prop where
  inv : Inv m
  formed : WellFormed m.mem r t
  used : ∀ f, InTree r t f → Used m f

/-- Memory after a new table was zeroed and entered in another. -/
def attached (m : Mm) (entry f : Nat) : Mm := { m with mem := store64 (fill m.mem f 0 4096) entry (new_table f) }

section
variable {Inv : Mm → Prop} {Used : Mm → Nat → Prop} {m m1 : Mm} {r : Nat} {t : Tree} {f : Nat}

theorem attached_confined {table idx : Nat} (aligned : table%4096 = 0) (small : idx < 512) (frame : f%4096 = 0) :
    Confined (fun p => p = table ∨ p = f) m.mem (attached m (entry_at table idx) f).mem := by
  refine Confined.trans (Confined.mono (confined_fill m.mem 0 frame) fun p same => .inr same) ?_
  exact Confined.mono (confined_store64 _ _ aligned (by omega)) fun p same => .inl same

/-- A tree stays when memory changes away from its tables. -/
theorem WellFormed.away {mem mem' : Mem} (formed : WellFormed mem r t) {S : Nat → Prop} (change : Confined S mem mem')
    (apart : ∀ f, InTree r t f → ¬ S f) : WellFormed mem' r t := by
  refine ⟨formed.tree.frame change formed.aligned (apart r (.inl rfl)) ?_ ?_,formed.aligned,formed.root2,formed.root1,
    formed.apart,formed.single2,formed.single1⟩
  · exact fun v a inside table => apart a (.inr (.inl ⟨v,inside,table⟩))
  · exact fun i b inside table => apart b (.inr (.inr ⟨i,inside,table⟩))

/-- What stays of a tree when a frame that is not in it is zeroed. -/
theorem WellFormed.zeroed (formed : WellFormed m.mem r t) (frame : f%4096 = 0) (fresh : ¬ InTree r t f) :
    TreeAt false (fill m.mem f 0 4096) r t := by
  refine (formed.away (confined_fill m.mem 0 frame) ?_).tree
  rintro x inside rfl
  exact fresh inside

theorem WellFormed.attach2 (formed : WellFormed m.mem r t) (frame : f%4096 = 0) (bound : f < 2^56) (fresh : ¬ InTree r t f)
    {v : Nat} (inside : v < 512) (missing : t.l2 v = none) :
    WellFormed (attached m (entry_at r v) f).mem r { t with l2 := Function.update t.l2 v (some f) } := by
  have blank : ∀ j, j < 512 → load64 (fill m.mem f 0 4096) (entry_at f j) = 0 :=
    fun j small => load64_fill_zero (by unfold entry_at; omega) (by unfold entry_at; omega)
  have root : r ≠ f := fun same => fresh (.inl same.symm)
  have old : ∀ {w a}, w < 512 → Function.update t.l2 v (some f) w = some a → (w = v ∧ a = f) ∨ t.l2 w = some a := by
    intro w a _ table
    by_cases here : w = v
    · rw [here,Function.update_self,Option.some.injEq] at table
      exact .inl ⟨here,table.symm⟩
    · rw [Function.update_of_ne here] at table
      exact .inr table
  have not2 : ∀ {w}, w < 512 → t.l2 w ≠ some f := fun small table => fresh (.inr (.inl ⟨_,small,table⟩))
  have not1 : ∀ {i}, i < 2^18 → t.l1 i ≠ some f := fun small table => fresh (.inr (.inr ⟨_,small,table⟩))
  refine ⟨(formed.zeroed frame fresh).attach_l2 formed.aligned inside missing frame bound blank root
    (fun _ _ small table => formed.root2 small table) (fun _ _ small table => formed.root1 small table),formed.aligned,?_,?_,?_,?_,?_⟩
  · intro w a small table
    rcases old small table with ⟨_,rfl⟩ | before
    · exact root.symm
    · exact formed.root2 small before
  · exact formed.root1
  · intro w i a small small' table table'
    rcases old small table with ⟨_,rfl⟩ | before
    · exact not1 small' table'
    · exact formed.apart small small' before table'
  · intro w w' a small small' table table'
    rcases old small table with ⟨rfl,rfl⟩ | before <;> rcases old small' table' with ⟨rfl,same⟩ | before'
    · rfl
    · exact absurd before' (not2 small')
    · rw [same] at before
      exact absurd before (not2 small)
    · exact formed.single2 small small' before before'
  · exact formed.single1

theorem WellFormed.attach1 (formed : WellFormed m.mem r t) (frame : f%4096 = 0) (bound : f < 2^56) (fresh : ¬ InTree r t f)
    {i a : Nat} (inside : i < 2^18) (parent : t.l2 (i/512) = some a) (missing : t.l1 i = none) :
    WellFormed (attached m (entry_at a (i%512)) f).mem r { t with l1 := Function.update t.l1 i (some f) } := by
  have blank : ∀ j, j < 512 → load64 (fill m.mem f 0 4096) (entry_at f j) = 0 :=
    fun j small => load64_fill_zero (by unfold entry_at; omega) (by unfold entry_at; omega)
  have place : i/512 < 512 := by omega
  have root : r ≠ f := fun same => fresh (.inl same.symm)
  have old : ∀ {j b}, j < 2^18 → Function.update t.l1 i (some f) j = some b → (j = i ∧ b = f) ∨ t.l1 j = some b := by
    intro j b _ table
    by_cases here : j = i
    · rw [here,Function.update_self,Option.some.injEq] at table
      exact .inl ⟨here,table.symm⟩
    · rw [Function.update_of_ne here] at table
      exact .inr table
  have not2 : ∀ {w}, w < 512 → t.l2 w ≠ some f := fun small table => fresh (.inr (.inl ⟨_,small,table⟩))
  have not1 : ∀ {i}, i < 2^18 → t.l1 i ≠ some f := fun small table => fresh (.inr (.inr ⟨_,small,table⟩))
  have away : a ≠ f := by
    rintro rfl
    exact not2 place parent
  refine ⟨(formed.zeroed frame fresh).attach_l1 formed.aligned inside parent missing frame bound blank away
    (formed.root2 place parent).symm (fun v small table => formed.single2 small place table parent)
    (fun j b small table same => formed.apart place small parent (by rw [← same]; exact table)),formed.aligned,formed.root2,?_,?_,formed.single2,?_⟩
  · intro j b small table
    rcases old small table with ⟨_,rfl⟩ | before
    · exact root.symm
    · exact formed.root1 small before
  · intro w j a small small' table table'
    rcases old small' table' with ⟨_,rfl⟩ | before
    · exact not2 small table
    · exact formed.apart small small' table before
  · intro j j' b small small' table table'
    rcases old small table with ⟨rfl,rfl⟩ | before <;> rcases old small' table' with ⟨rfl,same⟩ | before'
    · rfl
    · exact absurd before' (not1 small')
    · rw [same] at before
      exact absurd before (not1 small)
    · exact formed.single1 small small' before before'

theorem WellFormed.set (formed : WellFormed m.mem r t) {n b : Nat} (inside : n < 2^27) (table : t.l1 (n/512) = some b)
    (e : PTEntry) :
    WellFormed (store64 m.mem (entry_at b (n%512)) e) r { t with leaf := Function.update t.leaf n e } := by
  have place : n/512 < 2^18 := by omega
  refine ⟨formed.tree.set_leaf formed.aligned inside table (formed.root1 place table).symm ?_ ?_ e,formed.aligned,formed.root2,
    formed.root1,formed.apart,formed.single2,formed.single1⟩
  · rintro v a small other rfl
    exact formed.apart small place other table
  · intro i small other
    exact formed.single1 small place other table

end

/-! ### Walking -/

/-- What a walk may do to a well-formed table: attach tables that were not in use, and write to nothing else. -/
structure Extends (Inv : Mm → Prop) (Used : Mm → Nat → Prop) (r : Nat) (m : Mm) (t : Tree) (m' : Mm) (t' : Tree) : Prop where
  holding : Holding Inv Used m' r t'
  leaf : t'.leaf = t.leaf
  within : Confined (InTree r t') m.mem m'.mem
  kept : ∀ f, InTree r t f → InTree r t' f
  fresh : ∀ f, InTree r t' f → InTree r t f ∨ ¬ Used m f
  used : ∀ f, Used m f → Used m' f

section
variable {Inv : Mm → Prop} {Used : Mm → Nat → Prop} {m m1 : Mm} {r : Nat} {t : Tree} {f : Nat}

theorem Extends.refl (holding : Holding Inv Used m r t) : Extends Inv Used r m t m t :=
  ⟨holding,rfl,Confined.refl _ _,fun _ inside => inside,fun _ inside => .inl inside,fun _ used => used⟩

theorem Extends.trans {m2 : Mm} {t1 t2 : Tree} (first : Extends Inv Used r m t m1 t1) (second : Extends Inv Used r m1 t1 m2 t2) :
    Extends Inv Used r m t m2 t2 := by
  refine ⟨second.holding,second.leaf.trans first.leaf,?_,fun f inside => second.kept f (first.kept f inside),?_,
    fun f used => second.used f (first.used f used)⟩
  · exact Confined.trans (Confined.mono first.within second.kept) second.within
  · intro f inside
    rcases second.fresh f inside with before | unused
    · exact first.fresh f before
    · exact .inr fun used => unused (first.used f used)

/-- A call of the allocator, whatever it returns. -/
theorem Holding.refused (holding : Holding Inv Used m r t) (same : m1.mem = m.mem) (inv : Inv m1)
    (later : ∀ x, Used m x → Used m1 x) : Extends Inv Used r m t m1 t := by
  refine ⟨⟨inv,?_,fun f inside => later f (holding.used f inside)⟩,rfl,?_,fun _ inside => inside,fun _ inside => .inl inside,later⟩
  · rw [same]
    exact holding.formed
  · rw [same]
    exact Confined.refl _ _

/-- A frame that was not in use, zeroed and entered in a table of the tree. -/
theorem Holding.attach (holding : Holding Inv Used m r t) {alloc : M (Option Nat)} (supply : Supply alloc Inv Used)
    (same : m1.mem = m.mem) (inv : Inv m1) (later : ∀ x, Used m x → Used m1 x) (frame : f%4096 = 0) (fresh : ¬ Used m f)
    (taken : Used m1 f) {table idx : Nat} {t' : Tree} (aligned : table%4096 = 0) (small : idx < 512) (inside : InTree r t table)
    (formed : WellFormed (attached m1 (entry_at table idx) f).mem r t') (leaf : t'.leaf = t.leaf)
    (frames : ∀ x, InTree r t' x ↔ InTree r t x ∨ x = f) :
    Extends Inv Used r m t (attached m1 (entry_at table idx) f) t' := by
  have change := attached_confined (m := m1) aligned small frame
  have writes : Confined (Used m1) m1.mem (attached m1 (entry_at table idx) f).mem := by
    refine Confined.mono change ?_
    rintro p (rfl | rfl)
    · exact later p (holding.used p inside)
    · exact taken
  obtain ⟨kept,used⟩ := supply.write inv writes
  have inTree : ∀ x, InTree r t' x → Used m1 x := by
    intro x here
    rcases (frames x).mp here with before | rfl
    · exact later x (holding.used x before)
    · exact taken
  refine ⟨⟨kept,formed,fun x here => used x (inTree x here)⟩,leaf,?_,fun x here => (frames x).mpr (.inl here),?_,
    fun x here => used x (later x here)⟩
  · rw [← same]
    refine Confined.mono change ?_
    rintro p (rfl | rfl)
    · exact (frames p).mpr (.inl inside)
    · exact (frames p).mpr (.inr rfl)
  · intro x here
    rcases (frames x).mp here with before | rfl
    · exact .inl before
    · exact .inr fresh

theorem inTree_attach2 {v : Nat} (inside : v < 512) (missing : t.l2 v = none) (x : Nat) :
    InTree r { t with l2 := Function.update t.l2 v (some f) } x ↔ InTree r t x ∨ x = f := by
  constructor
  · rintro (rfl | ⟨w,small,table⟩ | low)
    · exact .inl (.inl rfl)
    · by_cases here : w = v
      · have named : Function.update t.l2 v (some f) w = some x := table
        rw [here,Function.update_self,Option.some.injEq] at named
        exact .inr named.symm
      · have named : Function.update t.l2 v (some f) w = some x := table
        rw [Function.update_of_ne here] at named
        exact .inl (.inr (.inl ⟨w,small,named⟩))
    · exact .inl (.inr (.inr low))
  · rintro ((rfl | ⟨w,small,table⟩ | low) | rfl)
    · exact .inl rfl
    · have other : w ≠ v := by
        rintro rfl
        rw [missing] at table
        exact absurd table (by simp)
      exact .inr (.inl ⟨w,small,(Function.update_of_ne other _ _).trans table⟩)
    · exact .inr (.inr low)
    · exact .inr (.inl ⟨v,inside,Function.update_self v (some x) t.l2⟩)

theorem inTree_attach1 {i : Nat} (inside : i < 2^18) (missing : t.l1 i = none) (x : Nat) :
    InTree r { t with l1 := Function.update t.l1 i (some f) } x ↔ InTree r t x ∨ x = f := by
  constructor
  · rintro (rfl | mid | ⟨j,small,table⟩)
    · exact .inl (.inl rfl)
    · exact .inl (.inr (.inl mid))
    · by_cases here : j = i
      · have named : Function.update t.l1 i (some f) j = some x := table
        rw [here,Function.update_self,Option.some.injEq] at named
        exact .inr named.symm
      · have named : Function.update t.l1 i (some f) j = some x := table
        rw [Function.update_of_ne here] at named
        exact .inl (.inr (.inr ⟨j,small,named⟩))
  · rintro ((rfl | mid | ⟨j,small,table⟩) | rfl)
    · exact .inl rfl
    · exact .inr (.inl mid)
    · have other : j ≠ i := by
        rintro rfl
        rw [missing] at table
        exact absurd table (by simp)
      exact .inr (.inr ⟨j,small,(Function.update_of_ne other _ _).trans table⟩)
    · exact .inr (.inr ⟨i,inside,Function.update_self i (some x) t.l1⟩)

end

section
variable {Inv : Mm → Prop} {Used : Mm → Nat → Prop} {m : Mm} {t : Tree} {pt : PageTable}

/-- The ways one level of a walk can go. -/
theorem level_cases (supply : Supply pt.frame_alloc Inv Used) (inv : Inv m) {table idx : Nat} {next : Option Nat}
    (slot : Slot false (load64 m.mem (entry_at table idx)) next) :
    (∃ a, next = some a ∧ (pt.walk_level table idx).run m = .ok (some a) m) ∨
    (∃ m1, next = none ∧ pt.frame_alloc.run m = .ok none m1 ∧ (pt.walk_level table idx).run m = .ok none m1) ∨
    ∃ f m1, next = none ∧ pt.frame_alloc.run m = .ok (some f) m1 ∧
      (pt.walk_level table idx).run m = .ok (some f) (attached m1 (entry_at table idx) f) := by
  cases next with
  | some a => exact .inl ⟨a,rfl,walk_level_found pt slot⟩
  | none =>
    obtain ⟨answer,m1,run,_,_,_,given⟩ := supply.alloc inv
    cases answer with
    | none => exact .inr (.inl ⟨m1,rfl,run,walk_level_full pt slot.1 run⟩)
    | some f =>
      obtain ⟨aligned,bound,_⟩ := given f rfl
      exact .inr (.inr ⟨f,m1,rfl,run,walk_level_made pt slot.1 run aligned bound⟩)

/-- What a call of the allocator leaves and what it hands out. -/
theorem Supply.result (supply : Supply pt.frame_alloc Inv Used) (inv : Inv m) {answer : Option Nat} {m1 : Mm}
    (run : pt.frame_alloc.run m = .ok answer m1) :
    m1.mem = m.mem ∧ Inv m1 ∧ (∀ x, Used m x → Used m1 x) ∧
      ∀ f, answer = some f → f%4096 = 0 ∧ f < 2^56 ∧ ¬ Used m f ∧ Used m1 f := by
  obtain ⟨other,m2,run',same,kept,later,given⟩ := supply.alloc inv
  rw [run] at run'
  obtain ⟨rfl,rfl⟩ := EStateM.Result.ok.inj run'
  exact ⟨same,kept,later,given⟩

/-- A missing level on the way to an address could not be allocated: the table at the root, the one below it, or the
    one below it after the root was given its table. -/
def Refused (pt : PageTable) (m : Mm) (t : Tree) (va : Nat) : Prop :=
  (t.l2 (vpn va 2) = none ∧ ∃ m1, pt.frame_alloc.run m = .ok none m1) ∨
  (t.l2 (vpn va 2) ≠ none ∧ t.l1 (pageOf va/512) = none ∧ ∃ m1, pt.frame_alloc.run m = .ok none m1) ∨
  (t.l2 (vpn va 2) = none ∧ ∃ f m1 m2, pt.frame_alloc.run m = .ok (some f) m1 ∧
    pt.frame_alloc.run (attached m1 (entry_at pt.root (vpn va 2)) f) = .ok none m2)

/-- The lower of the two levels that a walk may have to make. -/
theorem lower_spec (supply : Supply pt.frame_alloc Inv Used) (holding : Holding Inv Used m pt.root t) (va : Nat) {a : Nat}
    (parent : t.l2 (pageOf va/512/512) = some a) :
    (∃ b m' t', (pt.walk_level a (vpn va 1)).run m = .ok (some b) m' ∧ Extends Inv Used pt.root m t m' t' ∧
      t'.l1 (pageOf va/512) = some b ∧ (t.l1 (pageOf va/512) = none → ∀ m1, pt.frame_alloc.run m ≠ .ok none m1)) ∨
    ∃ m', (pt.walk_level a (vpn va 1)).run m = .ok none m' ∧ Extends Inv Used pt.root m t m' t ∧
      t.l1 (pageOf va/512) = none ∧ pt.frame_alloc.run m = .ok none m' := by
  have bound := pageOf_lt va
  have place : pageOf va/512 < 2^18 := by omega
  have above : pageOf va/512/512 < 512 := by omega
  have slot := holding.formed.tree.mid _ a place parent
  rw [← vpn_one] at slot
  rcases level_cases supply holding.inv slot with ⟨b,table,run⟩ | ⟨m1,missing,full,run⟩ | ⟨f,m1,missing,taken,run⟩
  · refine .inl ⟨b,m,t,run,Extends.refl holding,table,fun missing => ?_⟩
    rw [table] at missing
    exact absurd missing (by simp)
  · obtain ⟨same,inv,later,_⟩ := supply.result holding.inv full
    exact .inr ⟨m1,run,holding.refused same inv later,missing,full⟩
  · obtain ⟨same,inv,later,given⟩ := supply.result holding.inv taken
    obtain ⟨aligned,small,fresh,used⟩ := given f rfl
    have outside : ¬ InTree pt.root t f := fun inside => fresh (holding.used f inside)
    have formed := holding.formed
    rw [← same] at formed
    have attached' := formed.attach1 aligned small outside place parent missing
    rw [← vpn_one] at attached'
    refine .inl ⟨f,_,_,run,holding.attach supply same inv later aligned fresh used
      (holding.formed.tree.l2_aligned above parent) ?_ (.inr (.inl ⟨_,above,parent⟩)) attached' rfl
      (inTree_attach1 place missing),Function.update_self (pageOf va/512) (some f) t.l1,fun _ m2 full => ?_⟩
    · rw [vpn_one]
      exact Nat.mod_lt _ (by decide)
    · rw [full] at taken
      exact absurd (EStateM.Result.ok.inj taken).1 (by simp)

/-- A walk reaches the entry of its address in a table that only grew, unless a missing level could not be made. -/
theorem walk_spec (supply : Supply pt.frame_alloc Inv Used) (holding : Holding Inv Used m pt.root t) (va : Nat) :
    (∃ b m' t', (pt.walk va).run m = .ok (some (entry_at b (pageOf va%512))) m' ∧ Extends Inv Used pt.root m t m' t' ∧
      t'.l1 (pageOf va/512) = some b ∧ ¬ Refused pt m t va) ∨
    ∃ m' t', (pt.walk va).run m = .ok none m' ∧ Extends Inv Used pt.root m t m' t' ∧ Refused pt m t va := by
  have bound := pageOf_lt va
  have place : pageOf va/512 < 2^18 := by omega
  have above : pageOf va/512/512 < 512 := by omega
  have slot := holding.formed.tree.top _ above
  rw [← vpn_two] at slot
  unfold PageTable.walk
  rw [← vpn_zero]
  rcases level_cases supply holding.inv slot with ⟨a,parent,run⟩ | ⟨m1,missing,full,run⟩ | ⟨f,m1,missing,taken,run⟩
  · rw [run_seq run]
    dsimp only
    have parent' : t.l2 (pageOf va/512/512) = some a := by
      rw [← vpn_two]
      exact parent
    rcases lower_spec supply holding va parent' with ⟨b,m',t',lower,extends',table,allocated⟩ | ⟨m',lower,extends',missing,full⟩
    · rw [run_seq lower]
      refine .inl ⟨b,m',t',rfl,extends',table,?_⟩
      rintro (⟨none2,_⟩ | ⟨_,none1,m2,full⟩ | ⟨none2,_⟩)
      · rw [parent] at none2
        exact absurd none2 (by simp)
      · exact allocated none1 m2 full
      · rw [parent] at none2
        exact absurd none2 (by simp)
    · rw [run_seq lower]
      refine .inr ⟨m',t,rfl,extends',.inr (.inl ⟨?_,missing,m',full⟩)⟩
      rw [parent]
      simp
  · obtain ⟨same,inv,later,_⟩ := supply.result holding.inv full
    rw [run_seq run]
    exact .inr ⟨m1,t,rfl,holding.refused same inv later,.inl ⟨missing,m1,full⟩⟩
  · obtain ⟨same,inv,later,given⟩ := supply.result holding.inv taken
    obtain ⟨aligned,small,fresh,used⟩ := given f rfl
    have outside : ¬ InTree pt.root t f := fun inside => fresh (holding.used f inside)
    have small2 : vpn va 2 < 512 := by
      rw [vpn_two]
      exact above
    have formed := holding.formed
    rw [← same] at formed
    have grown := holding.attach supply same inv later aligned fresh used holding.formed.aligned small2 (.inl rfl)
      (formed.attach2 aligned small outside small2 missing) rfl (inTree_attach2 small2 missing)
    have parent : Function.update t.l2 (vpn va 2) (some f) (pageOf va/512/512) = some f := by
      rw [← vpn_two]
      exact Function.update_self (vpn va 2) (some f) t.l2
    have none1 : t.l1 (pageOf va/512) = none := by
      refine holding.formed.tree.mid_none _ place ?_
      rw [← vpn_two]
      exact missing
    rw [run_seq run]
    dsimp only
    rcases lower_spec supply grown.holding va parent with ⟨b,m',t',lower,extends',table,allocated⟩ | ⟨m',lower,extends',_,full⟩
    · rw [run_seq lower]
      refine .inl ⟨b,m',t',rfl,grown.trans extends',table,?_⟩
      rintro (⟨_,m2,full⟩ | ⟨some2,_⟩ | ⟨_,f',m2,m3,taken',full⟩)
      · rw [taken] at full
        exact absurd (EStateM.Result.ok.inj full).1 (by simp)
      · exact some2 missing
      · rw [taken] at taken'
        obtain ⟨same',rfl⟩ := EStateM.Result.ok.inj taken'
        obtain rfl := Option.some.inj same'
        exact allocated none1 m3 full
    · rw [run_seq lower]
      exact .inr ⟨m',_,rfl,grown.trans extends',.inr (.inr ⟨missing,f,m1,m',taken,full⟩)⟩

/-- Where an entry exists a walk finds it and takes no frame. -/
theorem walk_found (formed : WellFormed m.mem pt.root t) {va entry : Nat} (found : (pt.lookup va).run m = .ok (some entry) m) :
    (pt.walk va).run m = .ok (some entry) m := by
  have bound := pageOf_lt va
  have place : pageOf va/512 < 2^18 := by omega
  rw [lookup_eq pt formed.tree] at found
  obtain ⟨b,table,rfl⟩ := Option.map_eq_some_iff.mp (EStateM.Result.ok.inj found).1
  obtain ⟨a,parent⟩ := formed.tree.l1_parent place table
  have upper := formed.tree.top _ (show pageOf va/512/512 < 512 by omega)
  rw [parent,← vpn_two] at upper
  have lower := formed.tree.mid _ a place parent
  rw [table,← vpn_one] at lower
  unfold PageTable.walk
  rw [run_seq (walk_level_found pt upper)]
  dsimp only
  rw [run_seq (walk_level_found pt lower),← vpn_zero]
  rfl

/-! ### Mapping -/

/-- The entry that `map_leaf` writes. -/
def leafEntry (pa : Nat) (flags : PTEFlags) (cow : Bool) : PTEntry :=
  if cow then set_cow (new_leaf pa flags) else new_leaf pa flags

theorem leafEntry_flags (pa : Nat) {flags : PTEFlags} (built : Built flags) (cow : Bool) :
    PTEntry.flags (leafEntry pa flags cow) = flags := by
  refine BitVec.eq_of_getLsbD_eq fun i _ => ?_
  rw [getLsbD_flags]
  by_cases low : i < 5
  · have bit : (leafEntry pa flags cow).getLsbD i = (new_leaf pa flags).getLsbD i := by
      cases cow with
      | false => rfl
      | true =>
        have other : i ≠ 62 := by omega
        simp [leafEntry,other]
    rw [bit,getLsbD_new_leaf_low pa flags (by omega)]
    simp [low]
  · rw [built.high (by omega)]
    simp [low]

theorem leafEntry_names {pa : Nat} (flags : PTEFlags) (cow : Bool) (aligned : pa%4096 = 0) (bound : pa < 2^56) :
    ppn_to_addr (leafEntry pa flags cow) = pa ∧ is_cow (leafEntry pa flags cow) = cow := by
  have clean : is_cow (new_leaf pa flags) = false := by
    rw [is_cow_eq]
    exact getLsbD_new_leaf_high flags bound (by omega)
  cases cow with
  | false => exact ⟨ppn_new_leaf flags aligned bound,clean⟩
  | true =>
    refine ⟨?_,?_⟩
    · rw [leafEntry,if_pos rfl,ppn_set_cow]
      exact ppn_new_leaf flags aligned bound
    · rw [leafEntry,if_pos rfl,is_cow_eq,getLsbD_set_cow]
      simp

theorem run_map_leaf_found {va entry : Nat} {m' : Mm} (found : (pt.walk va).run m = .ok (some entry) m') (pa : Nat)
    (flags : PTEFlags) (cow : Bool) :
    (pt.map_leaf va pa flags cow).run m = .ok true { m' with mem := store64 m'.mem entry (leafEntry pa flags cow) } := by
  unfold PageTable.map_leaf
  rw [run_seq found]
  dsimp only
  rw [run_seq (run_write _ _ _)]
  cases cow with
  | false => rfl
  | true =>
    rw [if_pos rfl,run_seq (run_read _ _),run_seq (run_write _ _ _)]
    dsimp only
    rw [load64_store64,store64_store64]
    rfl

theorem run_map_leaf_none {va : Nat} {m' : Mm} (found : (pt.walk va).run m = .ok none m') (pa : Nat) (flags : PTEFlags)
    (cow : Bool) : (pt.map_leaf va pa flags cow).run m = .ok false m' := by
  unfold PageTable.map_leaf
  rw [run_seq found]
  rfl

/-- A table of the tree written to at one leaf. -/
theorem Holding.set (holding : Holding Inv Used m pt.root t) (supply : Supply pt.frame_alloc Inv Used) {n b : Nat}
    (inside : n < 2^27) (table : t.l1 (n/512) = some b) (e : PTEntry) :
    Holding Inv Used { m with mem := store64 m.mem (entry_at b (n%512)) e } pt.root { t with leaf := Function.update t.leaf n e } ∧
    Confined (InTree pt.root t) m.mem (store64 m.mem (entry_at b (n%512)) e) := by
  have place : n/512 < 2^18 := by omega
  have change : Confined (InTree pt.root t) m.mem (store64 m.mem (entry_at b (n%512)) e) := by
    refine Confined.mono (confined_store64 _ _ (holding.formed.tree.l1_aligned place table) (by omega)) ?_
    rintro p rfl
    exact .inr (.inr ⟨_,place,table⟩)
  obtain ⟨inv,used⟩ := supply.write holding.inv (Confined.mono change holding.used)
  exact ⟨⟨inv,holding.formed.set inside table e,fun f here => used f (holding.used f here)⟩,change⟩

/-- `map` and `map_cow` on a page table as a finite map from page numbers to leaves: the page of the address gets the
    leaf, every other page translates as before, the tree stays well-formed and nothing is written but its tables, old
    or fresh. They fail exactly when a missing level could not be allocated, and then every address translates as
    before. Where `lookup` finds an entry `walk` finds the same one and changes nothing. -/
theorem page_table_finite_map (supply : Supply pt.frame_alloc Inv Used) (holding : Holding Inv Used m pt.root t) (va pa : Nat)
    {flags : PTEFlags} (built : Built flags) (cow : Bool) :
    (∃ done m' t', (if cow then pt.map_cow va pa flags else pt.map va pa flags).run m = .ok done m' ∧
      (done = false ↔ Refused pt m t va) ∧ Holding Inv Used m' pt.root t' ∧ Confined (InTree pt.root t') m.mem m'.mem ∧
      (∀ f, InTree pt.root t' f → InTree pt.root t f ∨ ¬ Used m f) ∧
      (∀ vb, done = false ∨ pageOf vb ≠ pageOf va → leafAt m' pt vb = leafAt m pt vb) ∧
      (done = true → ∃ e, entryOf m' pt va = some e ∧ PTEntry.flags e = flags ∧
        (pa%4096 = 0 → pa < 2^56 → ppn_to_addr e = pa ∧ is_cow e = cow))) ∧
    ∀ entry, (pt.lookup va).run m = .ok (some entry) m → (pt.walk va).run m = .ok (some entry) m := by
  refine ⟨?_,fun entry found => walk_found holding.formed found⟩
  have map_eq : (if cow then pt.map_cow va pa flags else pt.map va pa flags) = pt.map_leaf va pa flags cow := by
    cases cow <;> rfl
  rw [map_eq]
  rcases walk_spec supply holding va with ⟨b,m1,t1,run,extends',table,allocated⟩ | ⟨m1,t1,run,extends',refused⟩
  · obtain ⟨held,change⟩ := extends'.holding.set supply (pageOf_lt va) table (leafEntry pa flags cow)
    refine ⟨true,_,_,run_map_leaf_found run pa flags cow,⟨fun no => by simp at no,fun refused => absurd refused allocated⟩,held,
      Confined.trans extends'.within change,extends'.fresh,?_,fun _ => ⟨leafEntry pa flags cow,?_,leafEntry_flags pa built cow,
        leafEntry_names flags cow⟩⟩
    · intro vb other
      have apart : pageOf vb ≠ pageOf va := by simpa using other
      refine leafAt_congr held.formed.tree holding.formed.tree ?_
      show Function.update t1.leaf (pageOf va) (leafEntry pa flags cow) (pageOf vb) = t.leaf (pageOf vb)
      rw [Function.update_of_ne apart,extends'.leaf]
    · have leaf : Function.update t1.leaf (pageOf va) (leafEntry pa flags cow) (pageOf va) = leafEntry pa flags cow :=
        Function.update_self _ _ _
      rw [entryOf_tree held.formed.tree]
      unfold leafSlot
      dsimp only
      rw [table,leaf]
      rfl
  · refine ⟨false,m1,t1,run_map_leaf_none run pa flags cow,⟨fun _ => refused,fun _ => rfl⟩,extends'.holding,extends'.within,
      extends'.fresh,?_,fun yes => by simp at yes⟩
    intro vb _
    refine leafAt_congr extends'.holding.formed.tree holding.formed.tree ?_
    rw [extends'.leaf]

end

/-! ### The kernel's allocator -/

/-- A frame that was handed out and is not on the free list. -/
def Taken (base : Nat) (m : Mm) (f : Nat) : Prop :=
  f%4096 = 0 ∧ base ≤ f ∧ f < m.next_frame ∧ f ∉ cells m.mem (RAM_SIZE/4096) m.free_list_head

theorem taken_iff {base : Nat} {m : Mm} {g : Ledger} (pool : Pool base m g) (f : Nat) :
    Taken base m f ↔ g.own f ≠ .none ∧ g.own f ≠ .free := by
  unfold Taken
  rw [cells_free pool,pool.free,pool.next,pool.owned]
  tauto

/-- The kernel's own allocator is such a supply. -/
theorem alloc_frame_supply (base : Nat) : Supply alloc_frame (fun m => ∃ g, Pool base m g) (Taken base) := by
  refine ⟨?_,?_⟩
  · rintro m ⟨g,pool⟩
    rcases alloc_frame_spec pool with ⟨_,_,run⟩ | ⟨f,m1,run,same,unused,aligned,_,high,pool'⟩
    · exact ⟨none,m,run,rfl,⟨g,pool⟩,fun _ taken => taken,fun f some' => by simp at some'⟩
    · refine ⟨some f,m1,run,same,⟨_,pool'⟩,?_,?_⟩
      · intro x taken
        obtain ⟨held,used⟩ := (taken_iff pool x).mp taken
        have other : x ≠ f := by
          rintro rfl
          exact unused.elim used held
        rw [taken_iff pool']
        show Function.update g.own f .temp x ≠ .none ∧ Function.update g.own f .temp x ≠ .free
        rw [Function.update_of_ne other]
        exact ⟨held,used⟩
      · rintro x same'
        obtain rfl := Option.some.inj same'
        refine ⟨aligned,Nat.lt_trans high (by decide),?_,?_⟩
        · rw [taken_iff pool]
          rintro ⟨held,used⟩
          exact unused.elim used held
        · rw [taken_iff pool']
          show Function.update g.own f .temp f ≠ .none ∧ Function.update g.own f .temp f ≠ .free
          rw [Function.update_self]
          exact ⟨by simp,by simp⟩
  · rintro m mem ⟨g,pool⟩ change
    have kept : Pool base { m with mem := mem } g := pool.frame change fun p taken => ((taken_iff pool p).mp taken).2
    refine ⟨⟨g,kept⟩,fun x taken => ?_⟩
    rw [taken_iff kept]
    exact (taken_iff pool x).mp taken

/-- Memory of zeros with one frame handed out, an empty root table. -/
def blank : Mm := { mem := fun _ => 0, next_frame := RAM_BASE+4096, frame_refs := fun i => if i = 0 then 1 else 0, free_list_head := 0 }

def blankTable : PageTable := { root := RAM_BASE, frame_alloc := alloc_frame }

def blankTree : Tree := { l2 := fun _ => none, l1 := fun _ => none, leaf := fun _ => 0 }

theorem blank_load (a : Nat) : load64 blank.mem a = 0 := by
  have zeros : blank.mem = fun _ => 0#8 := rfl
  simp [load64,zeros]

theorem blank_formed : WellFormed blank.mem RAM_BASE blankTree := by
  refine ⟨⟨?_,?_,fun _ _ _ => rfl,?_,fun _ _ _ => rfl⟩,by decide,?_,?_,?_,?_,?_⟩
  · intro v _
    rw [blank_load]
    exact ⟨is_valid_zero,by simp⟩
  · intro i a _ table
    exact absurd table (by simp [blankTree])
  · intro n b _ table
    exact absurd table (by simp [blankTree])
  all_goals simp [blankTree]

theorem blank_pool : Pool RAM_BASE blank
    { own := fun f => if f = RAM_BASE then .root else .none, refs := fun _ => 1, next := RAM_BASE+4096, free := [],
      tree := fun _ => blankTree } := by
  have base : RAM_BASE = 0x80000000 := rfl
  refine ⟨rfl,Nat.le_refl _,by decide,by decide,by decide,by decide,?_,.nil,List.nodup_nil,?_,?_,fun _ _ => by simp,?_⟩
  · intro f
    dsimp only
    split
    next here => simp [here,base]
    next other =>
      simp only [ne_eq,not_true_eq_false,false_iff]
      omega
  · intro f
    dsimp only
    split <;> simp
  · intro f held
    by_cases here : f = RAM_BASE
    · rw [here]
      rfl
    · exact absurd (if_neg here) held
  · intro f aligned above outside below
    have later : f < RAM_BASE ∨ RAM_BASE+4096 ≤ f := outside
    show (if (f-RAM_BASE)/4096 = 0 then (1 : BitVec 32) else 0) = 0
    rw [if_neg (by omega)]

theorem blank_taken : Taken RAM_BASE blank RAM_BASE := (taken_iff blank_pool _).mpr (by simp)

theorem blank_holding : Holding (fun m => ∃ g, Pool RAM_BASE m g) (Taken RAM_BASE) blank blankTable.root blankTree := by
  refine ⟨⟨_,blank_pool⟩,blank_formed,?_⟩
  rintro f (rfl | ⟨v,_,table⟩ | ⟨i,_,table⟩)
  · exact blank_taken
  · exact absurd table (by simp [blankTree])
  · exact absurd table (by simp [blankTree])

/-- A page mapped in an empty table is found again. -/
theorem page_table_finite_map_blank :
    ∃ done m' t', (blankTable.map_cow 0x20000 0x80005000 (PTEFlags.new true false false true)).run blank = .ok done m' ∧
      WellFormed m'.mem RAM_BASE t' ∧ done = true ∧
      ∃ e, entryOf m' blankTable 0x20000 = some e ∧ ppn_to_addr e = 0x80005000 ∧ is_cow e = true := by
  have built : Built (PTEFlags.new true false false true) := .inl ⟨true,false,false,true,rfl⟩
  obtain ⟨⟨done,m',t',run,_,held,_,_,_,found⟩,_⟩ :=
    page_table_finite_map (alloc_frame_supply RAM_BASE) blank_holding 0x20000 0x80005000 built true
  have yes : done = true := by
    have value : (blankTable.map_cow 0x20000 0x80005000 (PTEFlags.new true false false true)).run' blank = some true := by
      decide +kernel
    unfold EStateM.run' at value
    rw [show (blankTable.map_cow 0x20000 0x80005000 (PTEFlags.new true false false true)).run blank = _ from run] at value
    exact Option.some.inj value
  obtain ⟨e,entry,_,names⟩ := found yes
  obtain ⟨frame,cow⟩ := names (by decide) (by decide)
  exact ⟨done,m',t',run,held.formed,yes,e,entry,frame,cow⟩

/-- The empty root table after it was given a table of each level and one leaf. -/
def single (n : Nat) (e : PTEntry) : Mm :=
  let upper := attached blank (entry_at RAM_BASE (n/512/512)) (RAM_BASE+4096)
  let lower := attached upper (entry_at (RAM_BASE+4096) (n/512%512)) (RAM_BASE+8192)
  { lower with mem := store64 lower.mem (entry_at (RAM_BASE+8192) (n%512)) e }

def singleTree (n : Nat) (e : PTEntry) : Tree :=
  { l2 := Function.update (fun _ => none) (n/512/512) (some (RAM_BASE+4096))
    l1 := Function.update (fun _ => none) (n/512) (some (RAM_BASE+8192))
    leaf := Function.update (fun _ => 0) n e }

theorem single_formed {n : Nat} (inside : n < 2^27) (e : PTEntry) : WellFormed (single n e).mem RAM_BASE (singleTree n e) := by
  have outside2 : ¬ InTree RAM_BASE blankTree (RAM_BASE+4096) := by
    rintro (same | ⟨v,_,table⟩ | ⟨i,_,table⟩)
    · exact absurd same (by decide)
    · exact absurd table (by simp [blankTree])
    · exact absurd table (by simp [blankTree])
  have top : n/512/512 < 512 := by omega
  have upper := blank_formed.attach2 (by decide) (by decide) outside2 top rfl
  have outside1 : ¬ InTree RAM_BASE { blankTree with l2 := Function.update blankTree.l2 (n/512/512) (some (RAM_BASE+4096)) }
      (RAM_BASE+8192) := by
    rw [inTree_attach2 top rfl]
    rintro ((same | ⟨v,_,table⟩ | ⟨i,_,table⟩) | same)
    · exact absurd same (by decide)
    · exact absurd table (by simp [blankTree])
    · exact absurd table (by simp [blankTree])
    · exact absurd same (by decide)
  have parent : Function.update blankTree.l2 (n/512/512) (some (RAM_BASE+4096)) (n/512/512) = some (RAM_BASE+4096) :=
    Function.update_self _ _ _
  have lower := upper.attach1 (by decide) (by decide) outside1 (show n/512 < 2^18 by omega) parent rfl
  have table : Function.update blankTree.l1 (n/512) (some (RAM_BASE+8192)) (n/512) = some (RAM_BASE+8192) :=
    Function.update_self _ _ _
  exact lower.set inside table e

end Unit00.Maps
