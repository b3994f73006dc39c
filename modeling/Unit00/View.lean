import Unit00.Services

/-!
What can be seen of a machine without a ledger: the leaves that `lookup` finds,
the pages and bytes of a process, the frames that are free, the tables under a
root. Where memory follows a ledger each of these is what the ledger says.
-/
namespace Unit00.View
open Unit00.Memory Unit00.Execution Unit00.Frame Unit00.Paging Unit00.Paging.PTEntry Unit00.Trees Unit00.Ownership
open Unit00.Mirror Unit00.Space Unit00.Pages Unit00.Ranges Unit00.Forking Unit00.Services
open Unit00.Task Unit00.Scheduler Unit00.Syscall Unit00.Machine
open Unit00.Eager (Page Pages)

/-! ### Leaves and pages -/

/-- The entry that `lookup` finds for an address. -/
def entryOf (m : Mm) (pt : PageTable) (va : Nat) : Option PTEntry :=
  match (pt.lookup va).run m with
  | .ok (some entry) _ => some (load64 m.mem entry)
  | _ => none

/-- The entry of an address that has a valid user leaf. -/
def userLeaf (m : Mm) (pt : PageTable) (va : Nat) : Option PTEntry :=
  (entryOf m pt va).filter fun e => is_valid e && is_u e

/-- The entry of an address that has a valid leaf. -/
def leafAt (m : Mm) (pt : PageTable) (va : Nat) : Option PTEntry := (entryOf m pt va).filter is_valid

/-- The byte that a process sees at an address. -/
def byteOf (m : Mm) (pt : PageTable) (va : Nat) : Option (BitVec 8) :=
  (userLeaf m pt va).map fun e => m.mem (ppn_to_addr e+va%4096)

/-- The numbers of the pages with a user leaf. -/
def mapped (m : Mm) (pt : PageTable) : Set Nat := { n | n < 2^27 ∧ (userLeaf m pt (n*4096)).isSome }

/-- The numbers of the pages below the kernel half with a valid leaf. -/
def present (m : Mm) (pt : PageTable) : Set Nat :=
  { n | n < KERNEL_VPN2_MIN*2^18 ∧ ∃ e, entryOf m pt (n*4096) = some e ∧ is_valid e = true }

/-- The entry of `FRAME_REFS` for a frame. -/
def refsOf (m : Mm) (f : Nat) : BitVec 32 := m.frame_refs ((f-RAM_BASE)/4096)

/-- The frames that an allocation can still get: the free list and what is above the bump pointer. -/
def freeFrames (m : Mm) : Nat := (cells m.mem (RAM_SIZE/4096) m.free_list_head).length+(RAM_END-m.next_frame)/4096

section
variable {exact : Bool} {base : Nat} {m : Mm} {g : Ledger} (good : Good exact base m g) (pt : PageTable)
  (isRoot : g.own pt.root = .root)

include good isRoot

theorem entryOf_eq (va : Nat) :
    entryOf m pt va = (leafSlot (g.tree pt.root) (pageOf va)).map fun _ => (g.tree pt.root).leaf (pageOf va) := by
  unfold entryOf
  rw [good.lookup pt isRoot va]
  cases slot : leafSlot (g.tree pt.root) (pageOf va) with
  | none => rfl
  | some entry =>
    dsimp only
    rw [load_slot good.mirrors isRoot (pageOf_lt va) slot]
    rfl

/-- The entry of an address, absent or not valid as well. -/
theorem entryOf_valid {va : Nat} {e : PTEntry} (valid : is_valid e = true) :
    entryOf m pt va = some e ↔ (g.tree pt.root).leaf (pageOf va) = e := by
  rw [entryOf_eq good pt isRoot]
  constructor
  · intro found
    rw [Option.map_eq_some_iff] at found
    obtain ⟨_,_,same⟩ := found
    exact same
  · intro same
    cases slot : leafSlot (g.tree pt.root) (pageOf va) with
    | none =>
      rw [leaf_no_slot good.mirrors isRoot (pageOf_lt va) slot] at same
      rw [← same] at valid
      cases valid
    | some entry => rw [Option.map_some,same]

theorem leafAt_eq (va : Nat) : leafAt m pt va = (some ((g.tree pt.root).leaf (pageOf va))).filter is_valid := by
  unfold leafAt
  rw [entryOf_eq good pt isRoot]
  cases slot : leafSlot (g.tree pt.root) (pageOf va) with
  | some entry => rfl
  | none =>
    rw [leaf_no_slot good.mirrors isRoot (pageOf_lt va) slot]
    rfl

theorem userLeaf_iff {va : Nat} {e : PTEntry} : userLeaf m pt va = some e ↔ UserLeaf g pt.root (pageOf va) e := by
  unfold userLeaf
  rw [Option.filter_eq_some_iff]
  constructor
  · rintro ⟨found,both⟩
    simp only [Bool.and_eq_true] at both
    exact ⟨isRoot,pageOf_lt va,(entryOf_valid good pt isRoot both.1).mp found,both.1,both.2⟩
  · intro leaf
    exact ⟨(entryOf_valid good pt isRoot leaf.valid).mpr leaf.entry,by rw [leaf.valid,leaf.user]; rfl⟩

theorem userLeaf_page {n : Nat} (inside : n < 2^27) {e : PTEntry} :
    userLeaf m pt (n*4096) = some e ↔ UserLeaf g pt.root n e := by
  rw [userLeaf_iff good pt isRoot,pageOf_page inside]

theorem byteOf_eq (va : Nat) :
    byteOf m pt va = (space m g pt.root (pageOf va)).map fun p => p.bytes ⟨va%4096,Nat.mod_lt _ (by decide)⟩ := by
  unfold byteOf
  cases found : userLeaf m pt va with
  | none =>
    cases page : space m g pt.root (pageOf va) with
    | none => rfl
    | some p =>
      rw [(userLeaf_iff good pt isRoot).mpr (space_leaf isRoot page).2] at found
      cases found
  | some e =>
    have leaf := (userLeaf_iff good pt isRoot).mp found
    rw [space_low (good.sound.low leaf),leaf.entry,pageAt_user leaf.valid leaf.user]
    rfl

theorem mapped_eq : mapped m pt = userPages g pt.root := by
  ext n
  unfold mapped userPages
  simp only [Set.mem_ofPred_eq]
  constructor
  · rintro ⟨inside,found⟩
    obtain ⟨e,found⟩ := Option.isSome_iff_exists.mp found
    exact ⟨e,(userLeaf_page good pt isRoot inside).mp found⟩
  · rintro ⟨e,leaf⟩
    exact ⟨leaf.inside,Option.isSome_iff_exists.mpr ⟨e,(userLeaf_page good pt isRoot leaf.inside).mpr leaf⟩⟩

theorem present_eq : present m pt = leafPages g pt.root := by
  have half : KERNEL_VPN2_MIN*2^18 = 2^19 := by decide
  ext n
  unfold present leafPages
  simp only [Set.mem_ofPred_eq,half]
  constructor
  · rintro ⟨low,e,found,valid⟩
    have leaf := (entryOf_valid good pt isRoot valid).mp found
    rw [pageOf_page (by omega)] at leaf
    exact ⟨low,by rw [leaf]; exact valid⟩
  · rintro ⟨low,valid⟩
    exact ⟨low,_,(entryOf_valid good pt isRoot valid).mpr (by rw [pageOf_page (by omega)]),valid⟩

end

/-! ### Tables -/

/-- An entry of a table that names another table. -/
def Points (m : Mem) (table v a : Nat) : Prop :=
  v < 512 ∧ is_valid (load64 m (entry_at table v)) = true ∧ is_r (load64 m (entry_at table v)) = false ∧
    is_w (load64 m (entry_at table v)) = false ∧ is_x (load64 m (entry_at table v)) = false ∧
    ppn_to_addr (load64 m (entry_at table v)) = a

/-- A frame of the page table itself, the kernel half left out. -/
def LowerTable (m : Mem) (root f : Nat) : Prop :=
  f = root ∨ (∃ v, v < KERNEL_VPN2_MIN ∧ Points m root v f) ∨
    ∃ v a w, v < KERNEL_VPN2_MIN ∧ Points m root v a ∧ Points m a w f

/-- A table of the kernel half. -/
def UpperTable (m : Mem) (root f : Nat) : Prop :=
  (∃ v, KERNEL_VPN2_MIN ≤ v ∧ Points m root v f) ∨ ∃ v a w, KERNEL_VPN2_MIN ≤ v ∧ Points m root v a ∧ Points m a w f

theorem points_slot {m : Mem} {table v : Nat} {t : Option Nat} (inside : v < 512)
    (slot : Slot true (load64 m (entry_at table v)) t) {a : Nat} : Points m table v a ↔ t = some a := by
  cases t with
  | none =>
    constructor
    · rintro ⟨_,valid,_⟩
      rw [slot.1] at valid
      cases valid
    · intro h
      cases h
  | some b =>
    constructor
    · rintro ⟨_,_,_,_,_,same⟩
      rw [← same,slot.address]
    · rintro h
      cases h
      exact ⟨inside,slot.valid,slot.not_r,slot.not_w,slot.not_x,slot.address⟩

section
variable {mem : Mem} {r : Nat} {t : Tree} (tree : TreeAt true mem r t)

include tree

theorem points_root {v a : Nat} : Points mem r v a ↔ v < 512 ∧ t.l2 v = some a := by
  constructor
  · intro points
    exact ⟨points.1,(points_slot points.1 (tree.top v points.1)).mp points⟩
  · rintro ⟨inside,table⟩
    exact (points_slot inside (tree.top v inside)).mpr table

theorem points_table {v w a b : Nat} (inside : v < 512) (table : t.l2 v = some a) :
    Points mem a w b ↔ w < 512 ∧ t.l1 (v*512+w) = some b := by
  have slot : w < 512 → Slot true (load64 mem (entry_at a w)) (t.l1 (v*512+w)) := by
    intro small
    have place := tree.mid (v*512+w) a (by omega) (by rw [show (v*512+w)/512 = v by omega]; exact table)
    rwa [show (v*512+w)%512 = w by omega] at place
  constructor
  · intro points
    exact ⟨points.1,(points_slot points.1 (slot points.1)).mp points⟩
  · rintro ⟨small,there⟩
    exact (points_slot small (slot small)).mpr there

/-- The tables of a half, by their places in the tree. -/
theorem upperTable_iff {f : Nat} : UpperTable mem r f ↔
    (∃ v, 2 ≤ v ∧ v < 512 ∧ t.l2 v = some f) ∨ ∃ i, 2*512 ≤ i ∧ i < 2^18 ∧ t.l1 i = some f := by
  have two : KERNEL_VPN2_MIN = 2 := rfl
  unfold UpperTable
  rw [two]
  refine or_congr ?_ ?_
  · simp only [points_root tree]
  · constructor
    · rintro ⟨v,a,w,high,top,low⟩
      obtain ⟨inside,table⟩ := (points_root tree).mp top
      obtain ⟨small,there⟩ := (points_table tree inside table).mp low
      exact ⟨v*512+w,by omega,by omega,there⟩
    · rintro ⟨i,high,inside,there⟩
      obtain ⟨a,table⟩ := tree.l1_parent inside there
      refine ⟨i/512,a,i%512,by omega,(points_root tree).mpr ⟨by omega,table⟩,?_⟩
      refine (points_table tree (by omega) table).mpr ⟨by omega,?_⟩
      rw [show i/512*512+i%512 = i by omega]
      exact there

theorem lowerTable_iff {f : Nat} : LowerTable mem r f ↔
    f = r ∨ (∃ v, v < 2 ∧ t.l2 v = some f) ∨ ∃ i, i < 2*512 ∧ t.l1 i = some f := by
  have two : KERNEL_VPN2_MIN = 2 := rfl
  unfold LowerTable
  rw [two]
  refine or_congr Iff.rfl (or_congr ?_ ?_)
  · constructor
    · rintro ⟨v,low,top⟩
      exact ⟨v,low,((points_root tree).mp top).2⟩
    · rintro ⟨v,low,table⟩
      exact ⟨v,low,(points_root tree).mpr ⟨by omega,table⟩⟩
  · constructor
    · rintro ⟨v,a,w,low,top,place⟩
      obtain ⟨inside,table⟩ := (points_root tree).mp top
      obtain ⟨small,there⟩ := (points_table tree inside table).mp place
      exact ⟨v*512+w,by omega,there⟩
    · rintro ⟨i,low,there⟩
      obtain ⟨a,table⟩ := tree.l1_parent (by omega) there
      refine ⟨i/512,a,i%512,by omega,(points_root tree).mpr ⟨by omega,table⟩,?_⟩
      refine (points_table tree (by omega) table).mpr ⟨by omega,?_⟩
      rw [show i/512*512+i%512 = i by omega]
      exact there

end

section
variable {base : Nat} {m m' : Mm} {g g' : Ledger} {r q : Nat}

/-- The frames of a page table belong to its root. -/
theorem lowerTable_own (mirrors : Mirrors base 2 m g) (isRoot : g.own r = .root) {f : Nat} :
    LowerTable m.mem r f ↔ f = r ∨ (∃ v, g.own f = .l2 r v) ∨ ∃ i, g.own f = .l1 r i := by
  rw [lowerTable_iff (mirrors.tables.tree r isRoot)]
  refine or_congr Iff.rfl (or_congr ?_ ?_)
  · constructor
    · rintro ⟨v,low,table⟩
      exact ⟨v,by rw [mirrors.tables.l2 r v f isRoot (by omega) table,home2,if_pos low]⟩
    · rintro ⟨v,here⟩
      obtain ⟨_,low,table⟩ := mirrors.tables.l2_back f r v here
      exact ⟨v,low,table⟩
  · constructor
    · rintro ⟨i,low,table⟩
      exact ⟨i,by rw [mirrors.tables.l1 r i f isRoot (by omega) table,home1,if_pos low]⟩
    · rintro ⟨i,here⟩
      obtain ⟨_,low,table⟩ := mirrors.tables.l1_back f r i here
      exact ⟨i,low,table⟩

/-- The tables of the kernel half belong to the kernel. -/
theorem upperTable_own (mirrors : Mirrors base 2 m g) (isRoot : g.own r = .root) {f : Nat} (table : UpperTable m.mem r f) :
    g.own f = .kernel := by
  rcases (upperTable_iff (mirrors.tables.tree r isRoot)).mp table with ⟨v,high,inside,there⟩ | ⟨i,high,inside,there⟩
  · rw [mirrors.tables.l2 r v f isRoot inside there,home2,if_neg (by omega)]
  · rw [mirrors.tables.l1 r i f isRoot inside there,home1,if_neg (by omega)]

/-- Where the upper entries of two roots and the tables of the kernel are the same, so is the kernel half. -/
theorem upperTable_same (mirrors : Mirrors base 2 m g) (mirrors' : Mirrors base 2 m' g') (isRoot : g.own r = .root)
    (isRoot' : g'.own q = .root) (tops : ∀ v, 2 ≤ v → (g'.tree q).l2 v = (g.tree r).l2 v)
    (bytes : ∀ x i, g.own x = .kernel → i < 4096 → m'.mem (x+i) = m.mem (x+i)) {f : Nat} :
    UpperTable m'.mem q f ↔ UpperTable m.mem r f := by
  have two : KERNEL_VPN2_MIN = 2 := rfl
  have tree := mirrors.tables.tree r isRoot
  have tree' := mirrors'.tables.tree q isRoot'
  have root : ∀ {v a}, 2 ≤ v → (Points m'.mem q v a ↔ Points m.mem r v a) := by
    intro v a high
    rw [points_root tree',points_root tree,tops v high]
  have table : ∀ {v a w b}, 2 ≤ v → Points m.mem r v a → (Points m'.mem a w b ↔ Points m.mem a w b) := by
    intro v a w b high top
    have kernel : g.own a = .kernel := upperTable_own mirrors isRoot (.inl ⟨v,high,top⟩)
    by_cases small : w < 512
    · have word : load64 m'.mem (entry_at a w) = load64 m.mem (entry_at a w) :=
        load64_congr fun b low high => by
          rw [entry_at] at low high
          rw [show b = a+(b-a) by omega]
          exact bytes a _ kernel (by omega)
      unfold Points
      rw [word]
    · exact iff_of_false (fun points => small points.1) fun points => small points.1
  unfold UpperTable
  rw [two]
  refine or_congr (exists_congr fun v => and_congr_right root) ?_
  constructor
  · rintro ⟨v,a,w,high,top,low⟩
    have top' := (root high).mp top
    exact ⟨v,a,w,high,top',(table high top').mp low⟩
  · rintro ⟨v,a,w,high,top,low⟩
    exact ⟨v,a,w,high,(root high).mpr top,(table high top).mpr low⟩

end

/-! ### Frames -/

section
variable {base : Nat} {m : Mm} {g : Ledger} (pool : Pool base m g)

include pool

theorem free_length : g.free.length ≤ RAM_SIZE/4096 := by
  have place : ∀ f ∈ g.free, f%4096 = 0 ∧ RAM_BASE ≤ f ∧ f < RAM_END := fun f member =>
    pool.managed (by rw [(pool.free f).mp member]; simp)
  have total : RAM_END = RAM_BASE+RAM_SIZE := rfl
  have pages : RAM_SIZE = RAM_SIZE/4096*4096 := rfl
  have nodup : (g.free.map fun f => (f-RAM_BASE)/4096).Nodup := by
    refine List.Nodup.map_on ?_ pool.nodup
    intro f first h second same
    exact index_injective (place f first).1 (place h second).1 (place f first).2.1 (place h second).2.1 same
  have inside : (g.free.map fun f => (f-RAM_BASE)/4096) ⊆ List.range (RAM_SIZE/4096) := by
    intro i member
    obtain ⟨f,listed,rfl⟩ := List.mem_map.mp member
    have := place f listed
    rw [List.mem_range]
    omega
  have short := (nodup.subperm inside).length_le
  rw [List.length_map,List.length_range] at short
  exact short

theorem cells_free : cells m.mem (RAM_SIZE/4096) m.free_list_head = g.free :=
  cells_eq pool.chain _ (free_length pool)

theorem freeFrames_eq : freeFrames m = room g := by
  unfold freeFrames room
  rw [cells_free pool,pool.next]

end

end Unit00.View
