import Unit00.Clearing

/-!
The memory of a child. `fork_memory` makes a root with the kernel half of the
parent, a kernel stack, and an entry for every user page of the parent; writable
pages become copy-on-write in both. The child sees the pages of the parent, and
no process sees a change. How many tables the child needs is known beforehand:
when they do not fit, the pages behind the missing tables are lost.
-/
namespace Unit00.Forking
open Unit00.Memory Unit00.Execution Unit00.Frame Unit00.Paging Unit00.Paging.PTEntry Unit00.Trees Unit00.Ownership
open Unit00.Mirror Unit00.Space Unit00.Pages Unit00.Ranges Unit00.Clearing Unit00.Syscall Unit00.Task
open Unit00.Eager (Page Pages)

/-! ### The entries of parent and child -/

/-- The entry of a user page after fork, in both processes. -/
def sharedEntry (e : PTEntry) : PTEntry := if is_w e then set_cow (clear_w e) else e

theorem ppn_sharedEntry (e : PTEntry) : ppn_to_addr (sharedEntry e) = ppn_to_addr e := by
  unfold sharedEntry
  split <;> simp

theorem sharedEntry_bit (e : PTEntry) {i : Nat} (other : i ≠ 2) (mark : i ≠ 62) : (sharedEntry e).getLsbD i = e.getLsbD i := by
  unfold sharedEntry
  split
  · simp [other,mark]
  · rfl

theorem sharedEntry_w (e : PTEntry) : is_w (sharedEntry e) = false := by
  unfold sharedEntry
  split
  · rw [is_w_eq,getLsbD_set_cow,getLsbD_clear_w]
    simp
  · rename_i readonly
    simpa using readonly

theorem sharedEntry_cow (e : PTEntry) : is_cow (sharedEntry e) = (is_w e || is_cow e) := by
  unfold sharedEntry
  by_cases w : is_w e = true
  · rw [if_pos w,is_cow_eq,w]
    simp
  · rw [if_neg w]
    simp [w]

theorem sharedEntry_valid (e : PTEntry) : is_valid (sharedEntry e) = is_valid e := by
  rw [is_valid_eq,is_valid_eq,sharedEntry_bit e (by omega) (by omega)]

theorem sharedEntry_u (e : PTEntry) : is_u (sharedEntry e) = is_u e := by
  rw [is_u_eq,is_u_eq,sharedEntry_bit e (by omega) (by omega)]

theorem sharedEntry_r (e : PTEntry) : is_r (sharedEntry e) = is_r e := by
  rw [is_r_eq,is_r_eq,sharedEntry_bit e (by omega) (by omega)]

theorem sharedEntry_x (e : PTEntry) : is_x (sharedEntry e) = is_x e := by
  rw [is_x_eq,is_x_eq,sharedEntry_bit e (by omega) (by omega)]

theorem sharedEntry_shape {e : PTEntry} (shape : Shape e) : Shape (sharedEntry e) := by
  refine ⟨?_,?_,?_,?_,?_⟩
  · rw [sharedEntry_r,sharedEntry_x]
    exact shape.access
  · rw [sharedEntry_w]
    intro impossible
    cases impossible
  · rw [sharedEntry_cow,sharedEntry_r,sharedEntry_w,Bool.or_eq_true]
    rintro (w | cow)
    · exact ⟨shape.writable w,rfl⟩
    · exact ⟨(shape.cow cow).1,rfl⟩
  · intro i low high
    rw [sharedEntry_bit e (by omega) (by omega)]
    exact shape.flags i low high
  · intro i low other
    rw [sharedEntry_bit e (by omega) other]
    exact shape.high i low other

/-- The parent and the child see the page as it was. -/
theorem pageAt_sharedEntry (mem : Mem) (e : PTEntry) : pageAt mem (sharedEntry e) = pageAt mem e := by
  unfold pageAt
  rw [sharedEntry_valid,sharedEntry_u,sharedEntry_r,sharedEntry_w,sharedEntry_x,sharedEntry_cow,ppn_sharedEntry]
  simp

/-- The entry that `map` or `map_cow` makes for the child. -/
def childEntry (e : PTEntry) : PTEntry :=
  if is_cow e then set_cow (new_leaf (ppn_to_addr e) (PTEntry.flags e)) else new_leaf (ppn_to_addr e) (PTEntry.flags e)

/-- Nothing of a user entry is lost on the way to the child. -/
theorem childEntry_eq {e : PTEntry} (shape : Shape e) (bound : ppn_to_addr e < 2^56) : childEntry e = e := by
  have bit : ∀ i, (new_leaf (ppn_to_addr e) (PTEntry.flags e)).getLsbD i = (e.getLsbD i && decide (i ≠ 62)) := by
    intro i
    by_cases low : i < 10
    · have other : i ≠ 62 := by omega
      rw [getLsbD_new_leaf_low _ _ low,getLsbD_flags]
      by_cases flag : i < 5
      · simp [flag,other]
      · simp [flag,shape.flags i (by omega) low]
    · by_cases high : i < 54
      · have other : i ≠ 62 := by omega
        rw [getLsbD_new_leaf_mid e _ (by omega) (by omega)]
        simp [other]
      · rw [getLsbD_new_leaf_high _ bound (by omega)]
        by_cases mark : i = 62
        · simp [mark]
        · simp [shape.high i (by omega) mark]
  apply BitVec.eq_of_getLsbD_eq
  intro i _
  unfold childEntry
  by_cases cow : is_cow e = true
  · rw [if_pos cow,getLsbD_set_cow,bit]
    rw [is_cow_eq] at cow
    by_cases mark : i = 62
    · simp [mark,cow]
    · simp [mark]
  · rw [if_neg cow,bit]
    rw [is_cow_eq,Bool.not_eq_true] at cow
    by_cases mark : i = 62
    · rw [mark,cow]
      rfl
    · simp [mark]

/-! ### One user page -/

section
variable {exact : Bool} {base : Nat} {m : Mm} {g : Ledger} {r c : Nat}

/-- The parent's entry is marked and the frame has a reference for the child. -/
def marked (g : Ledger) (r n : Nat) (e : PTEntry) : Ledger :=
  setLeaf (g.count (ppn_to_addr e) (g.refs (ppn_to_addr e)+1)) r n (sharedEntry e)

theorem marked_own (n : Nat) (e : PTEntry) : (marked g r n e).own = g.own := rfl

theorem marked_leaf_self (n : Nat) (e : PTEntry) : ((marked g r n e).tree r).leaf n = sharedEntry e := leaf_setLeaf_self _ _ _ _

theorem marked_leaf_other {n q k : Nat} {e : PTEntry} (other : ¬ (q = r ∧ k = n)) :
    ((marked g r n e).tree q).leaf k = (g.tree q).leaf k := by
  rw [marked,leaf_setLeaf_other _ _ other]
  rfl

theorem marked_tables (n q : Nat) (e : PTEntry) :
    ((marked g r n e).tree q).l2 = (g.tree q).l2 ∧ ((marked g r n e).tree q).l1 = (g.tree q).l1 := by
  by_cases same : q = r
  · subst same
    simp [marked,setLeaf,Ledger.count]
  · simp [marked,setLeaf,Ledger.count,Function.update_of_ne same]

theorem marked_refs_other {n x : Nat} {e : PTEntry} (other : x ≠ ppn_to_addr e) : (marked g r n e).refs x = g.refs x := by
  simp [marked,Ledger.count,Function.update_of_ne other]

theorem marked_refs_self (n : Nat) (e : PTEntry) : (marked g r n e).refs (ppn_to_addr e) = g.refs (ppn_to_addr e)+1 := by
  simp [marked,Ledger.count]

theorem marked_sound (good : Good exact base m g) {n : Nat} {e : PTEntry} (leaf : UserLeaf g r n e)
    (few : g.refs (ppn_to_addr e)+1 ≤ (g.next-base)/4096) :
    Sound exact (owe (ppn_to_addr e)) base (marked g r n e) := by
  have owing := good.sound.owing (good.sound.user leaf) few
  have leaf' : UserLeaf (g.count (ppn_to_addr e) (g.refs (ppn_to_addr e)+1)) r n e :=
    ⟨leaf.root,leaf.inside,leaf.entry,leaf.valid,leaf.user⟩
  refine owing.replace leaf' (by rw [sharedEntry_valid]; exact leaf.valid) (by rw [sharedEntry_u]; exact leaf.user)
    (ppn_sharedEntry e) (sharedEntry_shape (good.sound.shape leaf)) ?_
  rw [sharedEntry_w]
  intro impossible
  cases impossible

/-- What `fork_user_leaf` does to the parent: a reference is taken, the page is marked
    and nobody sees it. -/
theorem mark_leaf (good : Good exact base m g) {n entry : Nat} {e : PTEntry} (leaf : UserLeaf g r n e)
    (slot : leafSlot (g.tree r) n = some entry) (few : g.refs (ppn_to_addr e)+1 ≤ (g.next-base)/4096) :
    ∃ m1, (inc_ref (ppn_to_addr e)).run m = .ok ⟨⟩ m1 ∧ m1.mem = m.mem ∧
      Mirrors base 2 { m1 with mem := store64 m1.mem entry (sharedEntry e) } (marked g r n e) ∧
      ∀ q, Aside q m { m1 with mem := store64 m1.mem entry (sharedEntry e) } g (marked g r n e) := by
  have isUser := good.sound.user leaf
  have low := good.sound.low leaf
  have held : g.own (ppn_to_addr e) ≠ .none := by rw [isUser]; simp
  have bounded : g.refs (ppn_to_addr e)+1 < 2^32 := by
    have := good.mirrors.pool.high
    have : RAM_END = 0x88000000 := rfl
    omega
  obtain ⟨m1,run,mem,counted⟩ := good.mirrors.inc held bounded
  have root1 : (g.count (ppn_to_addr e) (g.refs (ppn_to_addr e)+1)).own r = .root := leaf.root
  have slot1 : leafSlot ((g.count (ppn_to_addr e) (g.refs (ppn_to_addr e)+1)).tree r) n = some entry := slot
  obtain ⟨written,b,owner,change⟩ := write_leaf counted root1 leaf.inside (by omega) slot1 (sharedEntry e)
  have owner0 : g.own b = .l1 r (n/512) := owner
  rw [mem] at change
  have aside : Aside r m { m1 with mem := store64 m1.mem entry (sharedEntry e) } g (marked g r n e) := by
    refine aside_of good.mirrors (by rw [mem]; exact change) ?_ (fun _ => .rfl) (fun _ _ => .rfl) (fun _ => .rfl) ?_ ?_ (le_refl _)
    · rintro p rfl
      exact private_of good.sound (by rw [owner0]; simp) (by rw [owner0]; simp) (by rw [owner0]; simp)
    · intro q k other
      exact marked_leaf_other (by rintro ⟨rfl,rfl⟩; exact other ⟨rfl,low⟩)
    · intro q v _ _
      rw [(marked_tables _ _ _).1]
  refine ⟨m1,run,mem,written,aside.unseen ?_⟩
  funext k
  by_cases here : k = n
  · subst here
    rw [space_low low,space_low low,marked_leaf_self,leaf.entry,pageAt_sharedEntry]
    refine pageAt_same (S := (· = b)) (by rw [mem]; exact change) fun _ _ => ?_
    exact not_mapped good.sound owner0 (by simp) leaf
  · refine space_same (S := (· = b)) leaf.root (marked_leaf_other fun both => here both.2) (by rw [mem]; exact change) ?_
    intro d other
    exact not_mapped good.sound owner0 (by simp) other

theorem lacking_wider {bound : Nat} {small large : Nat → Prop} (wider : ∀ v, small v → large v) (table : Nat → Option Nat) :
    lacking bound small table ≤ lacking bound large table := by
  classical
  unfold lacking
  refine Finset.card_le_card fun v => ?_
  simp only [Finset.mem_filter]
  exact fun ⟨inside,wanted,empty⟩ => ⟨inside,wider v wanted,empty⟩

theorem missing_mono {S T : Set Nat} (wider : S ⊆ T) : missing g c S ≤ missing g c T :=
  Nat.add_le_add (lacking_wider (fun _ want => want.imp fun _ both => ⟨wider both.1,both.2⟩) _)
    (lacking_wider (fun _ want => want.imp fun _ both => ⟨wider both.1,both.2⟩) _)

/-- A page that wants a table which is not there is counted. -/
theorem missing_pos {n : Nat} {S : Set Nat} (inside : n < 2^27) (wanted : n ∈ S) (absent : (g.tree c).l1 (n/512) = none) :
    0 < missing g c S := by
  have member : 0 < lacking (2^18) (fun i => ∃ k ∈ S, k/512 = i) (g.tree c).l1 := by
    unfold lacking
    rw [Finset.card_pos]
    refine ⟨n/512,?_⟩
    simp only [Finset.mem_filter,Finset.mem_range]
    exact ⟨by omega,⟨n,wanted,rfl⟩,absent⟩
  unfold missing
  omega

/-- What `map` or `map_cow` does for a page of the child: the parent's entry, or no
    entry when there is no frame for a table. -/
theorem map_child (child_pt : PageTable) (at_root : child_pt.root = c)
    (from_pool : child_pt.frame_alloc = alloc_frame) (mirrors : Mirrors base 2 m g)
    (isRoot : g.own c = .root) {n : Nat} (low : n < 2^19) {e : PTEntry} (shape : Shape e) (bound : ppn_to_addr e < 2^56) :
    ∃ res m1 g1 m', (child_pt.map_leaf (n*4096) (ppn_to_addr e) (PTEntry.flags e) (is_cow e)).run m = .ok res m' ∧
      Walked base 2 c n m m1 g g1 ∧
      match res with
      | true => Mirrors base 2 m' (setLeaf g1 c n e) ∧ (∃ b, g1.own b = .l1 c (n/512) ∧ Confined (· = b) m1.mem m'.mem)
      | false => m' = m1 ∧ room g1 = 0 ∧ (g1.tree c).l1 (n/512) = none := by
  have page : pageOf (n*4096) = n := pageOf_page (by omega)
  obtain ⟨res,m1,g1,run,walked,result⟩ := mirrors.walk child_pt at_root from_pool isRoot page (by omega)
  unfold PageTable.map_leaf
  rw [run_seq run]
  cases res with
  | none => exact ⟨false,m1,g1,m1,rfl,walked,rfl,result⟩
  | some entry =>
    obtain ⟨b,table,rfl⟩ := result
    have isRoot1 : g1.own c = .root := (grows_keeps walked.grows (by simp) (by simp) (by simp)).mpr isRoot
    have slot : leafSlot (g1.tree c) n = some (entry_at b (n%512)) := by simp [leafSlot,table]
    obtain ⟨written,b',owner,change⟩ := write_leaf walked.mirrors isRoot1 (by omega) (by omega) slot e
    refine ⟨true,m1,g1,{ m1 with mem := store64 m1.mem (entry_at b (n%512)) e },?_,walked,written,b',owner,change⟩
    dsimp only
    rw [run_seq (run_write _ _ _)]
    have same := childEntry_eq shape bound
    unfold childEntry at same
    by_cases cow : is_cow e = true
    · rw [if_pos cow] at same
      rw [if_pos cow,run_seq (run_read _ _)]
      simp only [load64_store64,same]
      rw [run_seq (run_write _ _ _)]
      simp only [store64_store64]
      rfl
    · rw [if_neg cow] at same
      rw [if_neg cow]
      simp only [same]
      rfl

/-- After `n` pages of the first traversal of `fork_memory`. -/
structure Sharing (exact : Bool) (base r c : Nat) (m0 : Mm) (g0 : Ledger) (n : Nat) (m : Mm) (g : Ledger) : Prop where
  good : Good exact base m g
  aside : Aside c m0 m g0 g
  l2 : (g.tree r).l2 = (g0.tree r).l2
  l1 : (g.tree r).l1 = (g0.tree r).l1
  rest : ∀ k, (n ≤ k ∨ ∀ e, ¬ UserLeaf g0 r k e) → (g.tree r).leaf k = (g0.tree r).leaf k
  parent : ∀ k e, k < n → UserLeaf g0 r k e → (g.tree r).leaf k = sharedEntry e
  child : ∀ k e, k < n → UserLeaf g0 r k e → (g.tree c).leaf k = sharedEntry e ∨
    ((g.tree c).leaf k = 0 ∧ room g0 < missing g0 c { j | j ≤ k ∧ ∃ e, UserLeaf g0 r j e })
  bare : ∀ k, k < 2^19 → (n ≤ k ∨ ∀ e, ¬ UserLeaf g0 r k e) → (g.tree c).leaf k = 0
  refs : ∀ k e, n ≤ k → UserLeaf g0 r k e → g.refs (ppn_to_addr e) = g0.refs (ppn_to_addr e)
  counted : ∀ k e, k < n → UserLeaf g0 r k e → g.refs (ppn_to_addr e) = g0.refs (ppn_to_addr e)+1
  unshared : ∀ x, g0.own x = .user → (∀ k e, UserLeaf g0 r k e → ppn_to_addr e ≠ x) → g.own x = .user ∧ g.refs x = g0.refs x
  paid : ∀ T : Set Nat, { k | k < n ∧ ∃ e, UserLeaf g0 r k e } ⊆ T → room g+missing g0 c T = room g0+missing g c T
  spends : Spends g0 g

theorem Sharing.pass {m0 : Mm} {g0 : Ledger} {n : Nat} (now : Sharing exact base r c m0 g0 n m g)
    (absent : ∀ e, ¬ UserLeaf g0 r n e) : Sharing exact base r c m0 g0 (n+1) m g := by
  have skip : ∀ {k}, (n+1 ≤ k ∨ ∀ e, ¬ UserLeaf g0 r k e) → (n ≤ k ∨ ∀ e, ¬ UserLeaf g0 r k e) := by
    rintro k (later | none)
    · exact .inl (by omega)
    · exact .inr none
  have back : ∀ {k e}, k < n+1 → UserLeaf g0 r k e → k < n := by
    intro k e below leaf
    by_contra beyond
    have : k = n := by omega
    exact absent e (this ▸ leaf)
  exact { now with
    rest := fun k out => now.rest k (skip out)
    parent := fun k e below leaf => now.parent k e (back below leaf) leaf
    child := fun k e below leaf => now.child k e (back below leaf) leaf
    bare := fun k low out => now.bare k low (skip out)
    refs := fun k e later => now.refs k e (by omega)
    counted := fun k e below leaf => now.counted k e (back below leaf) leaf
    paid := fun T wide => now.paid T fun k before => wide ⟨Nat.lt_succ_of_lt before.1,before.2⟩ }

/-- The pages that are still to come are as they were. -/
theorem Sharing.current {m0 : Mm} {g0 : Ledger} {n k : Nat} {e : PTEntry} (now : Sharing exact base r c m0 g0 n m g)
    (leaf : UserLeaf g0 r k e) (later : n ≤ k) : UserLeaf g r k e := by
  refine ⟨(now.aside.roots r).mpr leaf.root,leaf.inside,?_,leaf.valid,leaf.user⟩
  rw [now.rest k (.inl later)]
  exact leaf.entry

/-- The parent's side of a visit, as `fork_user_leaf` runs it. -/
theorem run_mark {n entry : Nat} {e : PTEntry} {m1 : Mm} (child_pt : PageTable) (user : is_u e = true)
    (word : load64 m.mem entry = e) (inc : (inc_ref (ppn_to_addr e)).run m = .ok ⟨⟩ m1) (mem : m1.mem = m.mem) :
    (fork_user_leaf child_pt (n*4096) entry).run m =
      (child_pt.map_leaf (n*4096) (ppn_to_addr (sharedEntry e)) (PTEntry.flags (sharedEntry e)) (is_cow (sharedEntry e))
        >>= fun _ => pure ()).run { m1 with mem := store64 m1.mem entry (sharedEntry e) } := by
  have word1 : load64 m1.mem entry = e := by rw [mem]; exact word
  have branch : ∀ (f : PTEntry) (m2 : Mm),
      (if is_cow f = true then (child_pt.map_cow (n*4096) (ppn_to_addr e) (PTEntry.flags f) >>= fun _ => pure ())
        else (child_pt.map (n*4096) (ppn_to_addr e) (PTEntry.flags f) >>= fun _ => pure ()) : M Unit).run m2 =
      (child_pt.map_leaf (n*4096) (ppn_to_addr e) (PTEntry.flags f) (is_cow f) >>= fun _ => pure ()).run m2 := by
    intro f m2
    cases cow : is_cow f <;> rfl
  unfold fork_user_leaf
  rw [run_seq (run_read _ _),word,if_pos user,run_seq (run_read _ _),word,run_seq inc,run_seq (run_read _ _),word1,
    ppn_sharedEntry]
  by_cases w : is_w e = true
  · rw [if_pos w,run_seq (run_read _ _),word1,run_seq (run_write _ _ _),run_seq (run_read _ _),run_seq (run_write _ _ _),
      run_seq (run_read _ _)]
    simp only [load64_store64,store64_store64]
    have shared : sharedEntry e = set_cow (clear_w e) := by rw [sharedEntry,if_pos w]
    rw [← shared]
    exact branch _ _
  · rw [if_neg w,run_seq (run_read _ _),word1]
    have shared : sharedEntry e = e := by rw [sharedEntry,if_neg w]
    have same : store64 m1.mem entry e = m1.mem := by
      nth_rewrite 1 [← word1]
      exact store64_same m1.mem entry
    rw [shared,same]
    exact branch _ _

/-- The next entry of a growing child is seen by the child only. -/
theorem map_child_aside {owed : Nat → Nat} {m1 m' : Mm} {g1 : Ledger} {n b : Nat} {e : PTEntry} (mirrors : Mirrors base 2 m g)
    (sound : Sound exact owed base g) (walked : Walked base 2 c n m m1 g g1) (low : n < 2^19)
    (owner : g1.own b = .l1 c (n/512)) (change : Confined (· = b) m1.mem m'.mem) : Aside c m m' g (setLeaf g1 c n e) := by
  have sound1 := sound.grow walked.grows
  refine (walked_aside mirrors sound walked low c).trans ?_
  refine aside_of walked.mirrors change ?_ (fun _ => .rfl) (fun _ _ => .rfl) (fun _ => .rfl) ?_ ?_ (le_refl _)
  · rintro p rfl
    exact private_of sound1 (by rw [owner]; simp) (by rw [owner]; simp) (by rw [owner]; simp)
  · intro q k other
    exact leaf_setLeaf_other g1 e (by rintro ⟨rfl,rfl⟩; exact other ⟨rfl,low⟩)
  · intro q v _ _
    rw [(setLeaf_tables _ _ _ _).1]

section
variable {m0 : Mm} {g0 : Ledger} {n : Nat} {e : PTEntry}

/-- The fields that a visit leaves as they were. -/
theorem Sharing.next (now : Sharing exact base r c m0 g0 n m g) (different : c ≠ r) (old : UserLeaf g0 r n e)
    {m' : Mm} {g1 g' : Ledger} (good : Good exact base m' g') (aside : Aside c m m' g g')
    (grows : Grows c n (marked g r n e) g1)
    (tables : ∀ q, (g'.tree q).l2 = (g1.tree q).l2 ∧ (g'.tree q).l1 = (g1.tree q).l1)
    (leaves : ∀ q k, ¬ (q = c ∧ k = n) → (g'.tree q).leaf k = ((marked g r n e).tree q).leaf k)
    (refs : ∀ x, g.own x = .user → x ≠ ppn_to_addr e → g'.refs x = g.refs x)
    (count : g'.refs (ppn_to_addr e) = g.refs (ppn_to_addr e)+1) (users : ∀ x, g.own x = .user → g'.own x = .user)
    (rooms : g'.free = g1.free ∧ g'.next = g1.next)
    (mine : (g'.tree c).leaf n = sharedEntry e ∨
      ((g'.tree c).leaf n = 0 ∧ room g0 < missing g0 c { j | j ≤ n ∧ ∃ e, UserLeaf g0 r j e })) :
    Sharing exact base r c m0 g0 (n+1) m' g' := by
  have parentTree : (g1.tree r).l2 = (g.tree r).l2 ∧ (g1.tree r).l1 = (g.tree r).l1 := by
    rw [grows.others r different.symm]
    exact marked_tables n r e
  have other : ∀ {k}, (n+1 ≤ k ∨ ∀ e, ¬ UserLeaf g0 r k e) → k ≠ n ∧ (n ≤ k ∨ ∀ e, ¬ UserLeaf g0 r k e) := by
    rintro k (later | none)
    · exact ⟨by omega,.inl (by omega)⟩
    · refine ⟨?_,.inr none⟩
      rintro rfl
      exact none e old
  have current := now.current old (le_refl _)
  refine ⟨good,now.aside.trans aside,?_,?_,?_,?_,?_,?_,?_,?_,?_,?_,?_⟩
  · rw [(tables r).1,parentTree.1]
    exact now.l2
  · rw [(tables r).2,parentTree.2]
    exact now.l1
  · intro k out
    obtain ⟨ne,out'⟩ := other out
    rw [leaves r k fun both => different both.1.symm,marked_leaf_other fun both => ne both.2]
    exact now.rest k out'
  · intro k d below leaf
    rw [leaves r k fun both => different both.1.symm]
    by_cases here : k = n
    · subst here
      rw [marked_leaf_self,old.unique leaf]
    · rw [marked_leaf_other fun both => here both.2]
      exact now.parent k d (by omega) leaf
  · intro k d below leaf
    by_cases here : k = n
    · subst here
      rw [leaf.unique old]
      exact mine
    · rw [leaves c k fun both => here both.2,marked_leaf_other fun both => here both.2]
      exact now.child k d (by omega) leaf
  · intro k low out
    obtain ⟨ne,out'⟩ := other out
    rw [leaves c k fun both => ne both.2,marked_leaf_other fun both => ne both.2]
    exact now.bare k low out'
  · intro k d later leaf
    have later' := now.current leaf (by omega)
    rw [refs _ (now.good.sound.user later') ?_,now.refs k d (by omega) leaf]
    intro same
    have := now.good.sound.page later' current same
    omega
  · intro k d below leaf
    by_cases here : k = n
    · subst here
      rw [leaf.unique old,count,now.refs _ e (le_refl _) old]
    · have earlier : UserLeaf g r k (sharedEntry d) :=
        ⟨current.root,leaf.inside,now.parent k d (by omega) leaf,by rw [sharedEntry_valid]; exact leaf.valid,
          by rw [sharedEntry_u]; exact leaf.user⟩
      have isUser := now.good.sound.user earlier
      rw [ppn_sharedEntry] at isUser
      rw [refs _ isUser ?_,now.counted k d (by omega) leaf]
      intro same
      exact here (now.good.sound.page earlier current (by rw [ppn_sharedEntry]; exact same))
  · intro x isUser unmapped
    obtain ⟨isUser',same⟩ := now.unshared x isUser unmapped
    exact ⟨users x isUser',by rw [refs x isUser' (unmapped n e old).symm]; exact same⟩
  · intro T wide
    have paid := grows.paid T (wide ⟨Nat.lt_succ_self n,e,old⟩)
    have before : missing (marked g r n e) c T = missing g c T :=
      missing_congr (marked_tables n c e).1 (marked_tables n c e).2
    have after : missing g' c T = missing g1 c T := missing_congr (tables c).1 (tables c).2
    have rooms0 : room (marked g r n e) = room g := rfl
    have rooms1 : room g' = room g1 := by rw [room,room,rooms.1,rooms.2]
    have := now.paid T fun k before => wide ⟨Nat.lt_succ_of_lt before.1,before.2⟩
    omega
  · have spent : Spends g g1 := grows.spends
    refine now.spends.trans ?_
    unfold Spends
    rw [rooms.1,rooms.2]
    exact spent

/-- One user page of the parent. -/
theorem Sharing.visit (now : Sharing exact base r c m0 g0 n m g) (child_pt : PageTable) (at_root : child_pt.root = c)
    (from_pool : child_pt.frame_alloc = alloc_frame) (different : c ≠ r) (isRoot : g0.own c = .root)
    (old : UserLeaf g0 r n e) (spare : ∀ f, g0.own f = .user → g0.refs f+1 ≤ (g0.next-base)/4096)
    (fits : exact = true → missing g0 c { k | ∃ e, UserLeaf g0 r k e } ≤ room g0) {entry : Nat}
    (users : g0.own (ppn_to_addr e) = .user) (slot : leafSlot (g.tree r) n = some entry) :
    ∃ m' g', (fork_user_leaf child_pt (n*4096) entry).run m = .ok ⟨⟩ m' ∧ Sharing exact base r c m0 g0 (n+1) m' g' := by
  have leaf := now.current old (le_refl _)
  have low := now.good.sound.low leaf
  have shape := now.good.sound.shape leaf
  have isUser := now.good.sound.user leaf
  have word : load64 m.mem entry = e := by rw [load_slot now.good.mirrors leaf.root leaf.inside slot]; exact leaf.entry
  have bound : ppn_to_addr (sharedEntry e) < 2^56 := by
    have := (now.good.mirrors.pool.managed (f := ppn_to_addr e) (by rw [isUser]; simp)).2.2
    have : RAM_END = 0x88000000 := rfl
    rw [ppn_sharedEntry]
    omega
  have few : g.refs (ppn_to_addr e)+1 ≤ (g.next-base)/4096 := by
    have := spare _ users
    have := now.aside.next
    rw [now.refs n e (le_refl _) old]
    omega
  obtain ⟨m1,inc,mem,mirrors2,aside2⟩ := mark_leaf now.good leaf slot few
  have sound2 := marked_sound now.good leaf few
  have rootC : (marked g r n e).own c = .root := (now.aside.roots c).mpr isRoot
  obtain ⟨res,m3,g3,m4,run,walked,result⟩ := map_child child_pt at_root from_pool mirrors2 rootC low
    (sharedEntry_shape shape) bound
  have runs : (fork_user_leaf child_pt (n*4096) entry).run m = .ok ⟨⟩ m4 := by
    rw [run_mark child_pt leaf.user word inc mem,run_seq run]
    rfl
  have sound3 := sound2.grow walked.grows
  have temps : ∀ x, g3.own x ≠ .temp := by
    intro x here
    exact now.good.settled x ((grows_keeps walked.grows (by simp) (by simp) (by simp [Owner.structural])).mp here)
  have refs3 : ∀ x, g.own x = .user → x ≠ ppn_to_addr e → g3.refs x = g.refs x := by
    intro x user other
    have kept : g3.own x = (marked g r n e).own x := by
      rw [marked_own,user]
      exact (grows_keeps walked.grows (by simp) (by simp) (by simp [Owner.structural])).mpr user
    rw [walked.grows.refs x kept,marked_refs_other other]
  have users3 : ∀ x, g.own x = .user → g3.own x = .user := fun x user =>
    (grows_keeps walked.grows (by simp) (by simp) (by simp [Owner.structural])).mpr user
  have count3 : g3.refs (ppn_to_addr e) = g.refs (ppn_to_addr e)+1 := by
    rw [walked.grows.refs _ (by rw [users3 _ isUser,marked_own,isUser])]
    exact marked_refs_self n e
  have bare : (g3.tree c).leaf n = 0 := by
    rw [walked.grows.leaf,marked_leaf_other fun both => different both.1]
    exact now.bare n low (.inl (le_refl _))
  cases res with
  | true =>
    obtain ⟨mirrors4,b,owner,change⟩ := result
    have leaf3 : UserLeaf g3 r n (sharedEntry e) := by
      refine ⟨(grows_keeps walked.grows (by simp) (by simp) (by simp)).mpr leaf.root,leaf.inside,?_,?_,?_⟩
      · rw [walked.grows.leaf,marked_leaf_self]
      · rw [sharedEntry_valid]; exact leaf.valid
      · rw [sharedEntry_u]; exact leaf.user
    have sound4 : Sound exact nothing base (setLeaf g3 c n (sharedEntry e)) := by
      refine Sound.share (by rw [ppn_sharedEntry]; exact sound3) leaf3 (sharedEntry_w e)
        ((grows_keeps walked.grows (by simp) (by simp) (by simp)).mpr rootC) ?_
      intro d there
      rw [← there.entry,bare] at there
      exact absurd there.valid (by decide)
    have aside4 := map_child_aside (e := sharedEntry e) mirrors2 sound2 walked low owner change
    refine ⟨m4,setLeaf g3 c n (sharedEntry e),runs,
      now.next different old ⟨mirrors4,sound4,temps⟩ ((aside2 c).trans aside4) walked.grows
        (fun q => setLeaf_tables n c q _) ?_ refs3 count3 users3 ⟨rfl,rfl⟩ (.inl (leaf_setLeaf_self _ _ _ _))⟩
    intro q k other
    rw [leaf_setLeaf_other _ _ other,walked.grows.leaf]
  | false =>
    obtain ⟨rfl,full,absent⟩ := result
    have short : room g0 < missing g0 c { j | j ≤ n ∧ ∃ e, UserLeaf g0 r j e } := by
      have positive := missing_pos (S := { j | j ≤ n ∧ ∃ e, UserLeaf g0 r j e }) old.inside ⟨le_refl n,e,old⟩ absent
      have paid := walked.grows.paid { j | j ≤ n ∧ ∃ e, UserLeaf g0 r j e } ⟨le_refl n,e,old⟩
      have before : missing (marked g r n e) c { j | j ≤ n ∧ ∃ e, UserLeaf g0 r j e } =
          missing g c { j | j ≤ n ∧ ∃ e, UserLeaf g0 r j e } :=
        missing_congr (marked_tables n c e).1 (marked_tables n c e).2
      have rooms : room (marked g r n e) = room g := rfl
      have := now.paid { j | j ≤ n ∧ ∃ e, UserLeaf g0 r j e } fun k before => ⟨Nat.le_of_lt before.1,before.2⟩
      omega
    -- A reference that no leaf holds: this happens only when exact counts are given up.
    have loose : exact = false := by
      rw [Bool.eq_false_iff]
      intro yes
      have := fits yes
      have := missing_mono (g := g0) (c := c) (show { j | j ≤ n ∧ ∃ e, UserLeaf g0 r j e } ⊆ { k | ∃ e, UserLeaf g0 r k e } from
        fun _ member => member.2)
      omega
    subst loose
    refine ⟨m4,g3,runs,now.next different old ⟨walked.mirrors,sound3.forget,temps⟩
      ((aside2 c).trans (walked_aside mirrors2 sound2 walked low c)) walked.grows (fun _ => ⟨rfl,rfl⟩)
      (fun q k _ => by rw [walked.grows.leaf]) refs3 count3 users3 ⟨rfl,rfl⟩ (.inr ⟨bare,short⟩)⟩

end

end

/-! ### Both traversals -/

section
variable {exact : Bool} {base : Nat} {m0 m : Mm} {g0 g : Ledger} {r c : Nat}

/-- The first traversal shares every user page. -/
theorem share_all (good : Good exact base m0 g0) (parent child_pt : PageTable) (at_root : child_pt.root = c)
    (from_pool : child_pt.frame_alloc = alloc_frame) (isParent : g0.own parent.root = .root) (isChild : g0.own c = .root)
    (different : c ≠ parent.root) (bare : ∀ k, k < 2^19 → (g0.tree c).leaf k = 0)
    (spare : ∀ f, g0.own f = .user → g0.refs f+1 ≤ (g0.next-base)/4096)
    (fits : exact = true → missing g0 c { k | ∃ e, UserLeaf g0 parent.root k e } ≤ room g0) :
    ∃ m' g', (parent.for_each_leaf 0 KERNEL_VPN2_MIN (fork_user_leaf child_pt)).run m0 = .ok ⟨⟩ m' ∧
      Sharing exact base parent.root c m0 g0 (2^19) m' g' := by
  have sweep : Sweep base parent (g0.tree parent.root) (fork_user_leaf child_pt) (Sharing exact base parent.root c m0 g0) := by
    refine ⟨fun now => now.good.mirrors,fun now => (now.aside.roots _).mpr isParent,fun now => now.l2,fun now => now.l1,?_,?_⟩
    · intro n m g now low idle
      refine now.pass fun e leaf => ?_
      rw [now.rest n (.inl (le_refl _)),leaf.entry,isLeaf_user good.sound leaf] at idle
      cases idle
    · intro n m g entry now low found slot
      have isRoot := (now.aside.roots _).mpr isParent
      by_cases user : is_u ((g.tree parent.root).leaf n) = true
      · have old : UserLeaf g0 parent.root n ((g0.tree parent.root).leaf n) := by
          rw [now.rest n (.inl (le_refl _))] at user
          exact (user_leaf_of good isParent (by omega) user).2
        exact now.visit child_pt at_root from_pool different isChild old spare fits (good.sound.user old) slot
      · refine ⟨m,g,?_,now.pass fun e leaf => ?_⟩
        · unfold fork_user_leaf
          rw [run_seq (run_read _ _),load_slot now.good.mirrors isRoot (by omega) slot,if_neg user]
          rfl
        · rw [now.rest n (.inl (le_refl _)),leaf.entry] at user
          exact user leaf.user
  refine sweep.run ⟨good,Aside.refl _ _ _,rfl,rfl,fun _ _ => rfl,?_,?_,fun k low _ => bare k low,fun _ _ _ _ => rfl,?_,
    fun x isUser _ => ⟨isUser,rfl⟩,fun _ _ => rfl,Spends.refl _⟩
  · intro k e below _
    omega
  · intro k e below _
    omega
  · intro k e below _
    omega

/-- After `n` pages of the second traversal: nobody sees the leaf of the console
    device. -/
structure Copying (exact : Bool) (base r c : Nat) (m0 : Mm) (g0 : Ledger) (n : Nat) (m : Mm) (g : Ledger) : Prop where
  good : Good exact base m g
  unseen : ∀ q, Aside q m0 m g0 g
  l2 : (g.tree r).l2 = (g0.tree r).l2
  l1 : (g.tree r).l1 = (g0.tree r).l1
  leaves : ∀ q k, ¬ (q = c ∧ k = devicePage ∧ (g0.tree r).leaf devicePage = deviceLeaf) →
    (g.tree q).leaf k = (g0.tree q).leaf k
  plain : (g0.tree r).leaf devicePage = deviceLeaf → ∀ d, ¬ UserLeaf g c devicePage d
  users : ∀ x, g0.own x = .user → g.own x = .user ∧ g.refs x = g0.refs x
  before : n ≤ devicePage → g = g0
  copied : devicePage < n → (g0.tree r).leaf devicePage = deviceLeaf → (g.tree c).leaf devicePage = deviceLeaf ∨
    ((g.tree c).leaf devicePage = (g0.tree c).leaf devicePage ∧ ∀ T : Set Nat, devicePage ∈ T → room g0 < missing g0 c T)
  paid : ∀ T : Set Nat, devicePage ∈ T → room g+missing g0 c T = room g0+missing g c T
  idle : (g0.tree r).leaf devicePage ≠ deviceLeaf → g = g0
  spends : Spends g0 g

theorem device_entry : new_leaf (ppn_to_addr deviceLeaf) (PTEntry.flags deviceLeaf) = deviceLeaf := by decide

/-- A page that is not the console device. -/
theorem Copying.pass {n : Nat} (now : Copying exact base r c m0 g0 n m g)
    (other : n = devicePage → (g0.tree r).leaf devicePage ≠ deviceLeaf) : Copying exact base r c m0 g0 (n+1) m g := by
  refine { now with before := fun small => now.before (by omega), copied := fun beyond device => ?_ }
  by_cases here : n = devicePage
  · exact absurd device (other here)
  · exact now.copied (by omega) device

theorem Copying.visit (now : Copying exact base r c m0 g0 devicePage m g) (child_pt : PageTable) (at_root : child_pt.root = c)
    (from_pool : child_pt.frame_alloc = alloc_frame) (different : c ≠ r) (isChild : g.own c = .root) {entry : Nat}
    (device : (g0.tree r).leaf devicePage = deviceLeaf) (word : load64 m.mem entry = deviceLeaf) :
    ∃ m' g', (fork_kernel_leaf child_pt (devicePage*4096) entry).run m = .ok ⟨⟩ m' ∧
      Copying exact base r c m0 g0 (devicePage+1) m' g' := by
  have page : pageOf (devicePage*4096) = devicePage := pageOf_page (by decide)
  have low : devicePage < 2^19 := by decide
  have fresh := now.before (le_refl _)
  obtain ⟨res,m1,g1,run,walked,result⟩ := now.good.mirrors.walk child_pt at_root from_pool isChild page (by omega)
  have aside1 := walked_aside now.good.mirrors now.good.sound walked (by decide)
  have settled : ∀ x, g1.own x ≠ .temp := by
    intro x here
    exact now.good.settled x ((grows_keeps walked.grows (by simp) (by simp) (by simp [Owner.structural])).mp here)
  have plain1 : ∀ d, ¬ UserLeaf g1 c devicePage d := by
    intro d leaf
    refine now.plain device d ⟨isChild,leaf.inside,?_,leaf.valid,leaf.user⟩
    rw [← walked.grows.leaf]
    exact leaf.entry
  have tables : (g1.tree r).l2 = (g.tree r).l2 ∧ (g1.tree r).l1 = (g.tree r).l1 := by
    rw [walked.grows.others r different.symm]
    exact ⟨rfl,rfl⟩
  have sound1 := now.good.sound.grow walked.grows
  have users1 : ∀ x, g0.own x = .user → g1.own x = .user ∧ g1.refs x = g0.refs x := by
    intro x isUser
    obtain ⟨isUser',same⟩ := now.users x isUser
    have kept : g1.own x = .user := (grows_keeps walked.grows (by simp) (by simp) (by simp [Owner.structural])).mpr isUser'
    exact ⟨kept,by rw [walked.grows.refs x (kept.trans isUser'.symm)]; exact same⟩
  have paid1 : ∀ T : Set Nat, devicePage ∈ T → room g1+missing g0 c T = room g0+missing g1 c T := by
    intro T member
    have first := now.paid T member
    have second := walked.grows.paid T member
    omega
  have first : (fork_kernel_leaf child_pt (devicePage*4096) entry).run m =
      (child_pt.map_leaf (devicePage*4096) (ppn_to_addr deviceLeaf) (PTEntry.flags deviceLeaf) false >>= fun _ => pure ()).run m := by
    unfold fork_kernel_leaf
    rw [run_seq (run_read _ _),word,if_pos (by decide)]
    rfl
  rw [first]
  unfold PageTable.map_leaf
  cases res with
  | none =>
    obtain ⟨full,absent⟩ := result
    refine ⟨m1,g1,?_,⟨walked.mirrors,sound1,settled⟩,fun q => (now.unseen q).trans (aside1 q),?_,?_,?_,
      fun _ => plain1,users1,by omega,fun _ _ => .inr ⟨?_,fun T member => ?_⟩,paid1,fun other => absurd device other,
      now.spends.trans walked.grows.spends⟩
    · rw [run_seq (by rw [run_seq run]; rfl)]
      rfl
    · rw [tables.1]; exact now.l2
    · rw [tables.2]; exact now.l1
    · intro q k other
      rw [walked.grows.leaf]
      exact now.leaves q k other
    · rw [walked.grows.leaf,fresh]
    · have positive := missing_pos (by decide) member absent
      have := paid1 T member
      omega
  | some place =>
    obtain ⟨b,table,here⟩ := result
    have isRoot1 : g1.own c = .root := (grows_keeps walked.grows (by simp) (by simp) (by simp)).mpr isChild
    have slot : leafSlot (g1.tree c) devicePage = some place := by
      rw [leafSlot,table,here]
      rfl
    obtain ⟨written,b',owner,change⟩ := write_leaf walked.mirrors isRoot1 (by omega) (by omega) slot deviceLeaf
    have aside2 : Aside c m { m1 with mem := store64 m1.mem place deviceLeaf } g (setLeaf g1 c devicePage deviceLeaf) :=
      map_child_aside now.good.mirrors now.good.sound walked low owner change
    have same : space { m1 with mem := store64 m1.mem place deviceLeaf }
        (setLeaf g1 c devicePage deviceLeaf) c = space m g c := by
      rw [← space_unseen aside1 isChild]
      funext k
      by_cases here : k = devicePage
      · subst here
        rw [space_low low,leaf_setLeaf_self]
        cases found : space m1 g1 c devicePage with
        | none => rfl
        | some p => exact absurd (space_leaf isRoot1 found).2 (plain1 _)
      · exact space_same isRoot1 (leaf_setLeaf_other _ _ fun both => here both.2) change fun d leaf =>
          not_mapped sound1 owner (by simp) leaf
    refine ⟨{ m1 with mem := store64 m1.mem place deviceLeaf },setLeaf g1 c devicePage deviceLeaf,
      ?_,⟨written,sound1.set_device plain1,settled⟩,fun q => (now.unseen q).trans (aside2.unseen same q),?_,?_,?_,?_,
      users1,by omega,fun _ _ => .inl (leaf_setLeaf_self _ _ _ _),fun T member => ?_,fun other => absurd device other,
      now.spends.trans walked.grows.spends⟩
    · rw [run_seq (by rw [run_seq run]; dsimp only; rw [run_seq (run_write _ _ _),device_entry]; rfl)]
      rfl
    · rw [(setLeaf_tables _ _ _ _).1,tables.1]; exact now.l2
    · rw [(setLeaf_tables _ _ _ _).2,tables.2]; exact now.l1
    · intro q k other
      rw [leaf_setLeaf_other _ _ (fun both => other ⟨both.1,both.2,device⟩),walked.grows.leaf]
      exact now.leaves q k other
    · intro _ d leaf
      have equal := userLeaf_setLeaf_self leaf
      subst equal
      exact absurd leaf.user (by decide)
    · have same : missing (setLeaf g1 c devicePage deviceLeaf) c T = missing g1 c T :=
        missing_congr (setLeaf_tables _ _ _ _).1 (setLeaf_tables _ _ _ _).2
      rw [same]
      exact paid1 T member

theorem copy_devices (good : Good exact base m0 g0) (parent child_pt : PageTable) (at_root : child_pt.root = c)
    (from_pool : child_pt.frame_alloc = alloc_frame) (isParent : g0.own parent.root = .root) (isChild : g0.own c = .root)
    (different : c ≠ parent.root)
    (plain : (g0.tree parent.root).leaf devicePage = deviceLeaf → ∀ d, ¬ UserLeaf g0 c devicePage d) :
    ∃ m' g', (parent.for_each_leaf 0 KERNEL_VPN2_MIN (fork_kernel_leaf child_pt)).run m0 = .ok ⟨⟩ m' ∧
      Copying exact base parent.root c m0 g0 (2^19) m' g' := by
  have sweep : Sweep base parent (g0.tree parent.root) (fork_kernel_leaf child_pt)
      (Copying exact base parent.root c m0 g0) := by
    refine ⟨fun now => now.good.mirrors,fun now => ((now.unseen 0).roots _).mpr isParent,fun now => now.l2,fun now => now.l1,
      ?_,?_⟩
    · intro n m g now _ idle
      refine now.pass ?_
      rintro rfl device
      rw [now.leaves _ _ (fun both => different both.1.symm),device] at idle
      exact absurd idle (by decide)
    intro n m g entry now low found slot
    have isRoot := ((now.unseen 0).roots _).mpr isParent
    have word := load_slot now.good.mirrors isRoot (by omega) slot
    by_cases user : is_u ((g.tree parent.root).leaf n) = true
    · refine ⟨m,g,?_,now.pass ?_⟩
      · unfold fork_kernel_leaf
        rw [run_seq (run_read _ _),word,if_neg (by simp [user])]
        rfl
      · rintro rfl device
        rw [now.leaves _ _ (fun both => different both.1.symm),device] at user
        exact absurd user (by decide)
    · rcases now.good.sound.plain _ n isRoot low (fun both => user both.2) with zero | ⟨rfl,device⟩
      · rw [zero] at found
        exact absurd found (by decide)
      · have before : (g0.tree parent.root).leaf devicePage = deviceLeaf := by
          rw [← now.leaves parent.root devicePage fun both => different both.1.symm]
          exact device
        exact now.visit child_pt at_root from_pool different (((now.unseen 0).roots _).mpr isChild) before (word.trans device)
  refine sweep.run ⟨good,fun q => Aside.refl q _ _,rfl,rfl,fun _ _ _ => rfl,plain,fun _ isUser => ⟨isUser,rfl⟩,fun _ => rfl,?_,
    fun _ _ => rfl,fun _ => rfl,Spends.refl _⟩
  intro beyond
  omega

end

/-! ### The root and the stack of a child -/

/-- The kernel half of the parent's root, copied into a zeroed frame. -/
theorem copy_kernel_half_spec {m : Mm} {p f : Nat} (aligned : f%4096 = 0) (parent : p%4096 = 0) (different : p ≠ f)
    (zero : ∀ w, w < 512 → load64 m.mem (entry_at f w) = 0) :
    ∃ mem, (copy_kernel_half p f).run m = .ok ⟨⟩ { m with mem := mem } ∧ Confined (· = f) m.mem mem ∧
      ∀ w, w < 512 → load64 mem (entry_at f w) = if w < 2 then 0 else load64 m.mem (entry_at p w) := by
  have loop := forM_range' (fun v m' => ∃ mem, m' = { m with mem := mem } ∧ Confined (· = f) m.mem mem ∧
      ∀ w, w < 512 → load64 mem (entry_at f w) = if w < 2 ∨ v ≤ w then 0 else load64 m.mem (entry_at p w))
    (fun vpn2 => do
      let pte ← Frame.read (entry_at p vpn2)
      if pte ≠ 0 then Frame.write (entry_at f vpn2) pte : Nat → M Unit) KERNEL_VPN2_MIN (512-KERNEL_VPN2_MIN) m
    ⟨m.mem,rfl,Confined.refl _ _,?_⟩ ?_
  · obtain ⟨m',run,mem,rfl,change,words⟩ := loop
    refine ⟨mem,run,change,fun w inside => ?_⟩
    have two : KERNEL_VPN2_MIN = 2 := rfl
    rw [words w inside]
    by_cases low : w < 2
    · rw [if_pos (.inl low),if_pos low]
    · rw [if_neg (by omega),if_neg low]
  · intro w inside
    have two : KERNEL_VPN2_MIN = 2 := rfl
    rw [zero w inside,if_pos (by omega)]
  · rintro v m' low high ⟨mem,rfl,change,words⟩
    have two : KERNEL_VPN2_MIN = 2 := rfl
    have source : load64 mem (entry_at p v) = load64 m.mem (entry_at p v) := change.load parent (by omega) different
    rw [run_seq (run_read _ _)]
    dsimp only
    rw [source]
    by_cases empty : load64 m.mem (entry_at p v) = 0
    · rw [if_neg (by simp [empty])]
      refine ⟨{ m with mem := mem },rfl,mem,rfl,change,fun w inside => ?_⟩
      rw [words w inside]
      by_cases here : w = v
      · subst here
        rw [if_pos (by omega),if_neg (by omega),empty]
      · by_cases later : w < 2 ∨ v ≤ w
        · rw [if_pos later,if_pos (by omega)]
        · rw [if_neg later,if_neg (by omega)]
    · rw [if_pos empty]
      have inside : 8*v+8 ≤ 4096 := by omega
      refine ⟨{ m with mem := store64 mem (entry_at f v) (load64 m.mem (entry_at p v)) },rfl,_,rfl,
        change.trans (confined_store64 mem _ aligned inside),fun w below => ?_⟩
      by_cases here : w = v
      · subst here
        rw [load64_store64,if_neg (by omega)]
      · rw [load64_store64_off (by simp only [entry_at]; omega),words w below]
        by_cases later : w < 2 ∨ v ≤ w
        · rw [if_pos later,if_pos (by omega)]
        · rw [if_neg later,if_neg (by omega)]

section
variable {exact : Bool} {base : Nat} {m : Mm} {g : Ledger} {r c f : Nat}

theorem stretch_own {pages x : Nat} (mirrors : Mirrors base 2 m g) (held : g.own x ≠ .none) :
    (g.stretch pages).own x = g.own x := by
  have inside := (mirrors.pool.owned x).mp held
  simp only [Ledger.stretch]
  rw [if_neg (by omega)]

theorem stretch_keeps {pages x : Nat} {o : Owner} (mirrors : Mirrors base 2 m g) (held : o ≠ .none) (other : ∀ b, o ≠ .stack b) :
    (g.stretch pages).own x = o ↔ g.own x = o := by
  constructor
  · intro here
    simp only [Ledger.stretch] at here
    split at here
    · exact absurd here.symm (other _)
    · exact here
  · intro here
    rw [stretch_own mirrors (by rw [here]; exact held)]
    exact here

/-- The frames of a new kernel stack. -/
theorem stretch_stack {pages : Nat} (mirrors : Mirrors base 2 m g) (x b : Nat) :
    (g.stretch pages).own x = .stack b ↔ g.own x = .stack b ∨ (b = g.next ∧ ∃ i, i < pages ∧ x = g.next+i*4096) := by
  have aligned := mirrors.pool.next_aligned
  simp only [Ledger.stretch]
  constructor
  · split
    · rename_i inside
      intro here
      refine .inr ⟨by cases here; rfl,(x-g.next)/4096,by omega,by omega⟩
    · exact .inl
  · rintro (here | ⟨rfl,i,below,rfl⟩)
    · have inside := (mirrors.pool.owned x).mp (by rw [here]; simp)
      rw [if_neg (by omega)]
      exact here
    · rw [if_pos (by omega)]

/-- `alloc_contiguous_frames` takes frames from the bump pointer only. -/
theorem Mirrors.stretch (mirrors : Mirrors base 2 m g) (pages : Nat) (some_pages : 0 < pages) (few : pages ≤ 2^20) :
    (RAM_END < g.next+pages*4096 ∧ (alloc_contiguous_frames pages).run m = .ok none m) ∨
    ∃ m', (alloc_contiguous_frames pages).run m = .ok (some g.next) m' ∧ m'.mem = m.mem ∧ g.next+pages*4096 ≤ RAM_END ∧
      Mirrors base 2 m' (g.stretch pages) := by
  rcases alloc_contiguous_spec mirrors.pool some_pages few with full | ⟨room,m',run,mem,pool⟩
  · exact .inl full
  right
  refine ⟨m',run,mem,room,pool,?_⟩
  rw [mem]
  refine mirrors.tables.reown rfl fun x part => ?_
  rcases part with old | new
  · exact stretch_own mirrors (by intro h; rw [h] at old; cases old)
  · refine stretch_own mirrors fun h => ?_
    simp only [Ledger.stretch] at new
    split at new
    · cases new
    · rw [h] at new
      cases new

theorem held_stretch (held : Held exact base f m g) (pages : Nat) (some_pages : 0 < pages) (few : pages ≤ 2^20) :
    (RAM_END < g.next+pages*4096 ∧ (alloc_contiguous_frames pages).run m = .ok none m) ∨
    ∃ m', (alloc_contiguous_frames pages).run m = .ok (some g.next) m' ∧ m'.mem = m.mem ∧ g.next+pages*4096 ≤ RAM_END ∧
      Held exact base f m' (g.stretch pages) := by
  rcases Mirrors.stretch held.mirrors pages some_pages few with full | ⟨m',run,mem,room,mirrors⟩
  · exact .inl full
  right
  refine ⟨m',run,mem,room,⟨mirrors,held.sound.stretch held.mirrors.pool pages,?_,?_,held.aligned,held.bound⟩⟩
  · exact (stretch_keeps held.mirrors (by simp) (by simp)).mpr held.temp
  · exact fun x here => held.only x ((stretch_keeps held.mirrors (by simp) (by simp)).mp here)

/-- The ledger in which the child has its root and its stack. -/
def child (g : Ledger) (r f : Nat) : Ledger := newRoot 2 ((g.take f).stretch KERNEL_STACK_PAGES) r f

/-- The frames that the child takes before its user pages. -/
def Taken (g : Ledger) (f p : Nat) : Prop :=
  p = f ∨ ((g.take f).next ≤ p ∧ p < (g.take f).next+KERNEL_STACK_PAGES*4096)

theorem child_own_root (x : Nat) (mirrors : Mirrors base 2 m (g.take f)) (unused : g.own f = .free ∨ g.own f = .none) :
    (child g r f).own x = .root ↔ g.own x = .root ∨ x = f := by
  by_cases same : x = f
  · subst same
    simp [child,newRoot]
  · have : (child g r f).own x = ((g.take f).stretch KERNEL_STACK_PAGES).own x := by
      simp [child,newRoot,Function.update_of_ne same]
    rw [this,stretch_keeps mirrors (by simp) (by simp),take_keeps unused (by simp) (by simp) (by simp)]
    simp [same]

theorem child_own_stack (x b : Nat) (mirrors : Mirrors base 2 m (g.take f)) (unused : g.own f = .free ∨ g.own f = .none) :
    (child g r f).own x = .stack b ↔
      g.own x = .stack b ∨ (b = (g.take f).next ∧ ∃ i, i < KERNEL_STACK_PAGES ∧ x = (g.take f).next+i*PAGE_SIZE) := by
  have page : PAGE_SIZE = 4096 := rfl
  have owned := (mirrors.pool.owned f).mp (by rw [take_own_self]; simp)
  by_cases same : x = f
  · subst same
    constructor
    · intro here
      simp [child,newRoot] at here
    · rintro (here | ⟨_,i,_,here⟩)
      · exact absurd rfl (unused_ne unused here (by simp) (by simp))
      · omega
  · have : (child g r f).own x = ((g.take f).stretch KERNEL_STACK_PAGES).own x := by
      simp [child,newRoot,Function.update_of_ne same]
    rw [this,stretch_stack mirrors,take_keeps unused (by simp) (by simp) (by simp)]
    rfl

theorem child_keeps {x : Nat} {o : Owner} (mirrors : Mirrors base 2 m (g.take f)) (unused : g.own f = .free ∨ g.own f = .none)
    (used : o ≠ .free) (held : o ≠ .none) (owned : o ≠ .temp) (other : o ≠ .root) (not_stack : ∀ b, o ≠ .stack b) :
    (child g r f).own x = o ↔ g.own x = o := by
  by_cases same : x = f
  · subst same
    have : (child g r x).own x = .root := by simp [child,newRoot]
    rw [this]
    exact ⟨fun h => absurd h.symm other,fun h => absurd rfl (unused_ne unused h used held)⟩
  · have : (child g r f).own x = ((g.take f).stretch KERNEL_STACK_PAGES).own x := by
      simp [child,newRoot,Function.update_of_ne same]
    rw [this,stretch_keeps mirrors held not_stack,take_keeps unused used held owned]

theorem child_tree {q : Nat} (other : q ≠ f) : (child g r f).tree q = g.tree q := by
  simp [child,newRoot,Function.update_of_ne other,Ledger.stretch,Ledger.take]

theorem child_leaf (n : Nat) : ((child g r f).tree f).leaf n = if n < 2^19 then 0 else (g.tree r).leaf n := by
  simp [child,newRoot,Ledger.stretch,Ledger.take]

theorem child_l2 {v : Nat} (high : 2 ≤ v) : ((child g r f).tree f).l2 v = (g.tree r).l2 v := by
  simp only [child,newRoot,Function.update_self]
  rw [if_neg (by omega)]
  rfl

theorem take_next (g : Ledger) (f : Nat) : g.next ≤ (g.take f).next := by
  simp only [Ledger.take]
  split <;> omega

theorem child_refs {x : Nat} {m1 : Mm} (after : Mirrors base 2 m1 (g.take f)) (unused : g.own f = .free ∨ g.own f = .none)
    (isUser : g.own x = .user) : (child g r f).refs x = g.refs x := by
  have other := unused_ne unused isUser (by simp) (by simp)
  have owned := (after.pool.owned x).mp (by rw [take_own_other other,isUser]; simp)
  simp only [child,newRoot,Ledger.stretch]
  rw [if_neg (by omega),take_refs_other other]

/-- No frame with an owner is taken for the child. -/
theorem not_taken {p : Nat} {m1 : Mm} (after : Mirrors base 2 m1 (g.take f)) (unused : g.own f = .free ∨ g.own f = .none)
    {o : Owner} (here : g.own p = o) (used : o ≠ .free) (held : o ≠ .none) : ¬ Taken g f p := by
  rintro (rfl | inside)
  · exact unused_ne unused here used held rfl
  · have other := unused_ne unused here used held
    have owned := (after.pool.owned p).mp (by rw [take_own_other other,here]; exact held)
    omega

/-- The child's root and stack are set up: no process sees a change, and the child has
    no user page yet. -/
theorem child_good (good : Good exact base m g) (isRoot : g.own r = .root) {m1 m4 : Mm}
    (after : Mirrors base 2 m1 (g.take f)) (unused : g.own f = .free ∨ g.own f = .none)
    (held : Held exact base f m4 ((g.take f).stretch KERNEL_STACK_PAGES)) (change : Confined (· = f) m.mem m4.mem)
    (bound : f < RAM_END)
    (words : ∀ w, w < 512 → load64 m4.mem (entry_at f w) = if w < 2 then 0 else load64 m.mem (entry_at r w)) :
    Good exact base { m4 with mem := fill m4.mem (g.take f).next 0 KERNEL_STACK_SIZE } (child g r f) ∧
      Confined (Taken g f) m.mem (fill m4.mem (g.take f).next 0 KERNEL_STACK_SIZE) := by
  have next_aligned := after.pool.next_aligned
  have ownedF := (after.pool.owned f).mp (by rw [take_own_self]; simp)
  have different : r ≠ f := unused_ne unused isRoot (by simp) (by simp)
  have stackChange := confined_fill_pages m4.mem (p := (g.take f).next) (n := KERNEL_STACK_PAGES) 0 next_aligned
  have total : Confined (Taken g f) m.mem (fill m4.mem (g.take f).next 0 KERNEL_STACK_SIZE) :=
    (change.mono fun _ h => .inl h).trans (stackChange.mono fun _ h => .inr h)
  have filled : Mirrors base 2 { m4 with mem := fill m4.mem (g.take f).next 0 KERNEL_STACK_SIZE }
      ((g.take f).stretch KERNEL_STACK_PAGES) := by
    refine held.mirrors.frame stackChange fun p inside => ?_
    by_cases page : p%4096 = 0
    · have own : ((g.take f).stretch KERNEL_STACK_PAGES).own p = .stack (g.take f).next := by
        simp only [Ledger.stretch]
        rw [if_pos ⟨page,inside.1,inside.2⟩]
      rw [own]
      exact ⟨by simp,rfl⟩
    · have own : ((g.take f).stretch KERNEL_STACK_PAGES).own p = .none := by
        by_contra some_owner
        exact page ((held.mirrors.pool.owned p).mp some_owner).1
      rw [own]
      exact ⟨by simp,rfl⟩
  have rootS : ((g.take f).stretch KERNEL_STACK_PAGES).own r = .root :=
    (stretch_keeps after (by simp) (by simp)).mpr ((take_keeps unused (by simp) (by simp) (by simp)).mpr isRoot)
  have alignedR := good.mirrors.tables.aligned r isRoot
  -- The words of the new root, and those of the parent's.
  have kept : ∀ w, w < 512 → load64 (fill m4.mem (g.take f).next 0 KERNEL_STACK_SIZE) (entry_at f w) =
      load64 m4.mem (entry_at f w) := by
    intro w inside
    have place : 8*w+8 ≤ 4096 := by omega
    exact stackChange.load held.aligned place (by omega)
  have source : ∀ w, w < 512 → load64 (fill m4.mem (g.take f).next 0 KERNEL_STACK_SIZE) (entry_at r w) =
      load64 m.mem (entry_at r w) := by
    intro w inside
    have place : 8*w+8 ≤ 4096 := by omega
    exact total.load alignedR place (not_taken after unused isRoot (by simp) (by simp))
  have tables : Tables 2 (fill m4.mem (g.take f).next 0 KERNEL_STACK_SIZE) (child g r f) := by
    refine filled.tables.new_root (fun _ => rootS) (by rw [held.temp]; rfl) held.aligned ?_ ?_
    · intro v low inside
      rw [kept v inside,words v inside,if_pos low]
    · intro v high inside
      rw [kept v inside,words v inside,if_neg (by omega),source v inside]
  have pool : Pool base { m4 with mem := fill m4.mem (g.take f).next 0 KERNEL_STACK_SIZE } (child g r f) := by
    have given := filled.pool.give (f := f) (o := .root) (by rw [held.temp]; simp) (by rw [held.temp]; simp) (by simp) (by simp)
    exact { given with }
  refine ⟨⟨⟨pool,tables⟩,held.sound.new_root rootS held.temp bound,?_⟩,total⟩
  intro x here
  by_cases same : x = f
  · subst same
    simp [child,newRoot] at here
  · have old : ((g.take f).stretch KERNEL_STACK_PAGES).own x = .temp := by
      simpa [child,newRoot,Function.update_of_ne same] using here
    exact same (held.only x old)

/-! ### Fork -/

/-- The page numbers of the user pages under a root. -/
def userPages (g : Ledger) (r : Nat) : Set Nat := { k | ∃ e, UserLeaf g r k e }

/-- The number of tables below the root that a set of pages needs. -/
noncomputable def tablesFor (S : Set Nat) : Nat :=
  lacking 512 (fun v => ∃ n ∈ S, n/512/512 = v) (fun _ => none)+lacking (2^18) (fun i => ∃ n ∈ S, n/512 = i) (fun _ => none)

theorem tablesFor_mono {S T : Set Nat} (wider : S ⊆ T) : tablesFor S ≤ tablesFor T :=
  Nat.add_le_add (lacking_wider (fun _ want => want.imp fun _ both => ⟨wider both.1,both.2⟩) _)
    (lacking_wider (fun _ want => want.imp fun _ both => ⟨wider both.1,both.2⟩) _)

/-- There are frames for a root, a kernel stack and the tables of all user pages. -/
def Fits (g : Ledger) (r : Nat) : Prop := tablesFor (userPages g r)+1+KERNEL_STACK_PAGES ≤ room g

/-- The pages of the user half with a leaf: the user pages and the console device. -/
def leafPages (g : Ledger) (r : Nat) : Set Nat := { k | k < 2^19 ∧ is_valid ((g.tree r).leaf k) = true }

/-- There are frames for every table that a child of `r` needs, the table of the console
    device included. -/
def FitsAll (g : Ledger) (r : Nat) : Prop := tablesFor (leafPages g r)+1+KERNEL_STACK_PAGES ≤ room g

theorem lacking_congr {bound : Nat} {wanted : Nat → Prop} {t t' : Nat → Option Nat}
    (same : ∀ v, v < bound → wanted v → (t v = none ↔ t' v = none)) : lacking bound wanted t = lacking bound wanted t' := by
  unfold lacking
  congr 1
  ext v
  simp only [Finset.mem_filter,Finset.mem_range]
  constructor
  · rintro ⟨below,want,none⟩
    exact ⟨below,want,(same v below want).mp none⟩
  · rintro ⟨below,want,none⟩
    exact ⟨below,want,(same v below want).mpr none⟩

theorem lacking_zero {bound : Nat} {wanted : Nat → Prop} {t : Nat → Option Nat} (there : ∀ v, wanted v → t v ≠ none) :
    lacking bound wanted t = 0 := by
  unfold lacking
  rw [Finset.card_eq_zero]
  ext v
  simp only [Finset.mem_filter,Finset.notMem_empty,iff_false]
  rintro ⟨_,want,none⟩
  exact there v want none

/-- A child without tables lacks all of them. -/
theorem missing_child {S : Set Nat} (low : ∀ n ∈ S, n < 2^19) : missing (child g r f) f S = tablesFor S := by
  have l2 : ∀ v, v < 2 → ((child g r f).tree f).l2 v = none := by
    intro v below
    simp only [child,newRoot,Function.update_self]
    rw [if_pos below]
  have l1 : ∀ i, i < 2*512 → ((child g r f).tree f).l1 i = none := by
    intro i below
    simp only [child,newRoot,Function.update_self]
    rw [if_pos below]
  have middle : lacking 512 (fun v => ∃ n ∈ S, n/512/512 = v) ((child g r f).tree f).l2 =
      lacking 512 (fun v => ∃ n ∈ S, n/512/512 = v) (fun _ => none) := by
    refine lacking_congr fun v _ => ?_
    rintro ⟨n,member,rfl⟩
    have := low n member
    simp only [iff_true]
    exact l2 _ (by omega)
  have lowest : lacking (2^18) (fun i => ∃ n ∈ S, n/512 = i) ((child g r f).tree f).l1 =
      lacking (2^18) (fun i => ∃ n ∈ S, n/512 = i) (fun _ => none) := by
    refine lacking_congr fun i _ => ?_
    rintro ⟨n,member,rfl⟩
    have := low n member
    simp only [iff_true]
    exact l1 _ (by omega)
  rw [missing,tablesFor,middle,lowest]

theorem room_child {m1 : Mm} (after : Mirrors base 2 m1 (g.take f)) (less : room (g.take f)+1 = room g)
    (fits : (g.take f).next+KERNEL_STACK_PAGES*4096 ≤ RAM_END) : room (child g r f)+1+KERNEL_STACK_PAGES = room g := by
  have aligned := after.pool.next_aligned
  have high := after.pool.high
  have ram : RAM_END = 0x88000000 := rfl
  have eight : KERNEL_STACK_PAGES = 8 := rfl
  have same : room (child g r f) = (g.take f).free.length+(RAM_END-((g.take f).next+KERNEL_STACK_PAGES*4096))/4096 := rfl
  rw [same]
  unfold room at less ⊢
  omega

/-- What a fork does to memory. -/
structure Forked (exact : Bool) (base r c s : Nat) (m m' : Mm) (g g' : Ledger) : Prop where
  good : Good exact base m' g'
  roots : ∀ x, g'.own x = .root ↔ g.own x = .root ∨ x = c
  fresh_root : g.own c = .free ∨ g.own c = .none
  stack : ∀ x b, g'.own x = .stack b ↔
    g.own x = .stack b ∨ (b = s ∧ ∃ i, i < KERNEL_STACK_PAGES ∧ x = s+i*PAGE_SIZE)
  fresh_stack : g.next ≤ s
  spaces : ∀ q, g.own q = .root → space m' g' q = space m g q
  pages : ∀ n, space m' g' c n = space m g r n ∨ (space m' g' c n = none ∧ ¬ Fits g r)
  parent : ∀ n e, UserLeaf g r n e → (g'.tree r).leaf n = sharedEntry e
  child : ∀ n e, UserLeaf g r n e → (g'.tree c).leaf n = sharedEntry e ∨ ((g'.tree c).leaf n = 0 ∧ ¬ Fits g r)
  reached : ∀ n e, UserLeaf g r n e → tablesFor { j | j ≤ n ∧ j ∈ userPages g r }+1+KERNEL_STACK_PAGES ≤ room g →
    (g'.tree c).leaf n = sharedEntry e
  needed : (∀ n e, UserLeaf g r n e → (g'.tree c).leaf n = sharedEntry e) → Fits g r
  device : (g.tree r).leaf devicePage = deviceLeaf →
    (g'.tree c).leaf devicePage = deviceLeaf ∨ ((g'.tree c).leaf devicePage = 0 ∧ ¬ FitsAll g r)
  absent : ∀ n, n < 2^19 → (∀ e, ¬ UserLeaf g r n e) →
    (g'.tree r).leaf n = (g.tree r).leaf n ∧ ((g.tree r).leaf n = 0 → (g'.tree c).leaf n = 0)
  needed_all : (∀ n, n ∈ leafPages g r → is_valid ((g'.tree c).leaf n) = true) → FitsAll g r
  refs : ∀ n e, UserLeaf g r n e → g'.refs (ppn_to_addr e) = g.refs (ppn_to_addr e)+1
  unshared : ∀ x, g.own x = .user → (∀ n e, UserLeaf g r n e → ppn_to_addr e ≠ x) → g'.own x = .user ∧ g'.refs x = g.refs x
  tops : ∀ q v, g.own q = .root → 2 ≤ v → (g'.tree q).l2 v = (g.tree q).l2 v
  tops_child : ∀ v, 2 ≤ v → (g'.tree c).l2 v = (g.tree r).l2 v
  kernel : ∀ x, g'.own x = .kernel ↔ g.own x = .kernel
  kernel_bytes : ∀ x o, g.own x = .kernel → o < 4096 → m'.mem (x+o) = m.mem (x+o)
  upper : ∀ q n, g.own q = .root → 2^19 ≤ n → (g'.tree q).leaf n = (g.tree q).leaf n
  upper_child : ∀ n, 2^19 ≤ n → (g'.tree c).leaf n = (g.tree r).leaf n
  stack_bytes : ∀ x b o, g.own x = .stack b → o < 4096 → m'.mem (x+o) = m.mem (x+o)
  next : g.next ≤ g'.next
  paid : room g'+tablesFor (leafPages g r)+1+KERNEL_STACK_PAGES = room g+missing g' c (leafPages g r)
  bump : s = g.next ∨ (g.free = [] ∧ s = g.next+4096)
  spends : g'.free.length ≤ g.free.length ∧ (g'.next = s+KERNEL_STACK_PAGES*4096 ∨ g'.free = [])

/-- A child with all its tables lacks none. -/
theorem missing_zero {S : Set Nat} (tree : TreeAt true m.mem c (g.tree c))
    (mapped : ∀ n ∈ S, n < 2^27 ∧ is_valid ((g.tree c).leaf n) = true) : missing g c S = 0 := by
  have low : ∀ n ∈ S, ∃ b, (g.tree c).l1 (n/512) = some b := fun n member =>
    tree.leaf_table (mapped n member).1 (mapped n member).2
  unfold missing
  rw [Nat.add_eq_zero_iff]
  constructor
  · refine lacking_zero ?_
    rintro v ⟨n,member,rfl⟩ none
    obtain ⟨b,table⟩ := low n member
    have := (mapped n member).1
    obtain ⟨a,parent⟩ := tree.l1_parent (by omega) table
    rw [none] at parent
    cases parent
  · refine lacking_zero ?_
    rintro i ⟨n,member,rfl⟩ none
    obtain ⟨b,table⟩ := low n member
    rw [none] at table
    cases table

theorem userPages_child (unused : g.own f = .free ∨ g.own f = .none) {m1 : Mm} (after : Mirrors base 2 m1 (g.take f))
    {n : Nat} {e : PTEntry} {q : Nat} (other : q ≠ f) : UserLeaf (child g r f) q n e ↔ UserLeaf g q n e := by
  have roots : (child g r f).own q = .root ↔ g.own q = .root := by
    rw [child_own_root q after unused]
    simp [other]
  constructor
  · intro leaf
    exact ⟨roots.mp leaf.root,leaf.inside,by rw [← leaf.entry,child_tree other],leaf.valid,leaf.user⟩
  · intro leaf
    exact ⟨roots.mpr leaf.root,leaf.inside,by rw [child_tree other]; exact leaf.entry,leaf.valid,leaf.user⟩

theorem no_user_device {g : Ledger} {r : Nat} (device : (g.tree r).leaf devicePage = deviceLeaf) : ∀ e, ¬ UserLeaf g r devicePage e := by
  intro e leaf
  have user := leaf.user
  rw [← leaf.entry,device] at user
  exact absurd user (by decide)

/-- Both traversals of a fork, from a child with a root and a stack on. -/
structure Passed (exact : Bool) (base r f : Nat) (m1 m m5 m6 m7 : Mm) (g g6 g7 : Ledger) : Prop where
  good : Good exact base m g
  isRoot : g.own r = .root
  after : Mirrors base 2 m1 (g.take f)
  unused : g.own f = .free ∨ g.own f = .none
  rooms : room (child g r f)+1+KERNEL_STACK_PAGES = room g
  first : Spends g (g.take f)
  change : Confined (Taken g f) m.mem m5.mem
  shared : Sharing exact base r f m5 (child g r f) (2^19) m6 g6
  copied : Copying exact base r f m6 g6 (2^19) m7 g7

namespace Passed
variable {m1 m5 m6 m7 : Mm} {g6 g7 : Ledger} (passed : Passed exact base r f m1 m m5 m6 m7 g g6 g7)

include passed

theorem different : r ≠ f := unused_ne passed.unused passed.isRoot (by simp) (by simp)

theorem root_child (x : Nat) : (child g r f).own x = .root ↔ g.own x = .root ∨ x = f :=
  child_own_root x passed.after passed.unused

theorem user_leaf_child_iff {n : Nat} {e : PTEntry} : UserLeaf (child g r f) r n e ↔ UserLeaf g r n e :=
  userPages_child passed.unused passed.after passed.different

theorem pages_child {P : Nat → Prop} :
    { k | P k ∧ ∃ e, UserLeaf (child g r f) r k e } = { k | P k ∧ k ∈ userPages g r } := by
  ext k
  simp only [userPages,Set.mem_ofPred_eq,passed.user_leaf_child_iff]

theorem shared_pages {k : Nat} (member : k ∈ { k | k < 2^19 ∧ ∃ e, UserLeaf (child g r f) r k e }) : k ∈ userPages g r := by
  rw [passed.pages_child] at member
  exact member.2

theorem low_pages : ∀ n ∈ userPages g r, n < 2^19 := by
  rintro n ⟨e,leaf⟩
  exact passed.good.sound.low leaf

theorem fits_iff_missing {T : Set Nat} (low : ∀ n ∈ T, n < 2^19) :
    tablesFor T+1+KERNEL_STACK_PAGES ≤ room g ↔ missing (child g r f) f T ≤ room (child g r f) := by
  have rooms := passed.rooms
  rw [missing_child low]
  omega

theorem root_after_sharing {q : Nat} (isRoot : g.own q = .root) : g6.own q = .root :=
  (passed.shared.aside.roots q).mpr ((passed.root_child q).mpr (.inl isRoot))

theorem child_root_after_sharing : g6.own f = .root := (passed.shared.aside.roots f).mpr ((passed.root_child f).mpr (.inr rfl))

theorem child_root_after_copying : g7.own f = .root := ((passed.copied.unseen 0).roots f).mpr passed.child_root_after_sharing

theorem leaf_after_copying {q n : Nat} (other : q ≠ f) : (g7.tree q).leaf n = (g6.tree q).leaf n :=
  passed.copied.leaves q n fun both => other both.1

theorem parent_leaf {n : Nat} {e : PTEntry} (leaf : UserLeaf g r n e) : (g7.tree r).leaf n = sharedEntry e := by
  rw [passed.leaf_after_copying passed.different]
  exact passed.shared.parent n e (passed.good.sound.low leaf) (passed.user_leaf_child_iff.mpr leaf)

theorem absent_leaf {n : Nat} (absent : ∀ e, ¬ UserLeaf g r n e) : (g7.tree r).leaf n = (g.tree r).leaf n := by
  rw [passed.leaf_after_copying passed.different,passed.shared.rest n (.inr fun e leaf => absent e (passed.user_leaf_child_iff.mp leaf)),
    child_tree passed.different]

/-- The device leaf of the parent stays through the first traversal. -/
theorem device_after_sharing : (g6.tree r).leaf devicePage = deviceLeaf ↔ (g.tree r).leaf devicePage = deviceLeaf := by
  by_cases mapped : ∃ e, UserLeaf g r devicePage e
  · obtain ⟨e,leaf⟩ := mapped
    have user := leaf.user
    constructor
    · intro device
      rw [← sharedEntry_u,← passed.shared.parent devicePage e (by decide) (passed.user_leaf_child_iff.mpr leaf),device] at user
      exact absurd user (by decide)
    · intro device
      rw [← leaf.entry,device] at user
      exact absurd user (by decide)
  · rw [passed.shared.rest devicePage (.inr fun e leaf => mapped ⟨e,passed.user_leaf_child_iff.mp leaf⟩),child_tree passed.different]

theorem child_kept {n : Nat} {e : PTEntry} (leaf : UserLeaf g r n e) : (g7.tree f).leaf n = (g6.tree f).leaf n := by
  refine passed.copied.leaves _ _ ?_
  rintro ⟨_,rfl,device⟩
  have user := leaf.user
  rw [← leaf.entry,passed.device_after_sharing.mp device] at user
  exact absurd user (by decide)

/-- The child has the page of the parent, or the frames do not suffice for the tables of the pages up to it. -/
theorem child_leaf_reached {n : Nat} {e : PTEntry} (leaf : UserLeaf g r n e) :
    (g7.tree f).leaf n = sharedEntry e ∨ ((g7.tree f).leaf n = 0 ∧
      room g < tablesFor { j | j ≤ n ∧ j ∈ userPages g r }+1+KERNEL_STACK_PAGES) := by
  rw [passed.child_kept leaf]
  rcases passed.shared.child n e (passed.good.sound.low leaf) (passed.user_leaf_child_iff.mpr leaf) with same | ⟨zero,short⟩
  · exact .inl same
  · refine .inr ⟨zero,?_⟩
    rw [passed.pages_child] at short
    have := passed.fits_iff_missing (T := { j | j ≤ n ∧ j ∈ userPages g r }) fun j member => passed.low_pages j member.2
    omega

theorem child_leaf_or_short {n : Nat} {e : PTEntry} (leaf : UserLeaf g r n e) :
    (g7.tree f).leaf n = sharedEntry e ∨ ((g7.tree f).leaf n = 0 ∧ ¬ Fits g r) := by
  rcases passed.child_leaf_reached leaf with same | ⟨zero,short⟩
  · exact .inl same
  · refine .inr ⟨zero,fun fits => ?_⟩
    have fewer := tablesFor_mono (show { j | j ≤ n ∧ j ∈ userPages g r } ⊆ userPages g r from fun _ member => member.2)
    unfold Fits at fits
    omega

theorem user_leaf_pages : userPages g r ⊆ leafPages g r := by
  rintro n ⟨e,leaf⟩
  refine ⟨passed.good.sound.low leaf,?_⟩
  rw [leaf.entry]
  exact leaf.valid

/-- What both traversals spent on tables; without a device leaf the second does nothing. -/
theorem paid_all : room g7+missing (child g r f) f (leafPages g r) = room (child g r f)+missing g7 f (leafPages g r) := by
  have first := passed.shared.paid (leafPages g r) fun _ member => passed.user_leaf_pages (passed.shared_pages member)
  by_cases device : (g.tree r).leaf devicePage = deviceLeaf
  · have second := passed.copied.paid (leafPages g r) ⟨by decide,by rw [device]; rfl⟩
    omega
  · rw [passed.copied.idle (mt passed.device_after_sharing.mp device)]
    exact first

theorem child_bare_after_sharing {n : Nat} (low : n < 2^19) (absent : ∀ e, ¬ UserLeaf g r n e) : (g6.tree f).leaf n = 0 :=
  passed.shared.bare n low (.inr fun e leaf => absent e (passed.user_leaf_child_iff.mp leaf))

theorem child_device_or_short (device : (g.tree r).leaf devicePage = deviceLeaf) :
    (g7.tree f).leaf devicePage = deviceLeaf ∨ ((g7.tree f).leaf devicePage = 0 ∧ ¬ FitsAll g r) := by
  rcases passed.copied.copied (by decide) (passed.device_after_sharing.mpr device) with same | ⟨same,short⟩
  · exact .inl same
  · refine .inr ⟨same.trans (passed.child_bare_after_sharing (by decide) (no_user_device device)),fun fits => ?_⟩
    have short' := short (leafPages g r) ⟨by decide,by rw [device]; rfl⟩
    have first := passed.shared.paid (leafPages g r) fun _ member => passed.user_leaf_pages (passed.shared_pages member)
    have := (passed.fits_iff_missing (fun _ member => member.1)).mp fits
    omega

theorem child_absent {n : Nat} (low : n < 2^19) (absent : ∀ e, ¬ UserLeaf g r n e) (zero : (g.tree r).leaf n = 0) :
    (g7.tree f).leaf n = 0 := by
  rw [passed.copied.leaves]
  · exact passed.child_bare_after_sharing low absent
  · rintro ⟨_,rfl,device⟩
    rw [passed.device_after_sharing.mp device] at zero
    exact absurd zero (by decide)

theorem fits_of_leaves : (∀ n e, UserLeaf g r n e → (g7.tree f).leaf n = sharedEntry e) → Fits g r := by
  intro all
  rw [Fits,passed.fits_iff_missing passed.low_pages]
  have mapped : missing g6 f (userPages g r) = 0 := by
    refine missing_zero (passed.shared.good.mirrors.tables.tree f passed.child_root_after_sharing) ?_
    rintro n ⟨e,leaf⟩
    refine ⟨leaf.inside,?_⟩
    rw [← passed.child_kept leaf,all n e leaf,sharedEntry_valid]
    exact leaf.valid
  have paid := passed.shared.paid (userPages g r) fun _ => passed.shared_pages
  omega

theorem fitsAll_of_leaves : (∀ n, n ∈ leafPages g r → is_valid ((g7.tree f).leaf n) = true) → FitsAll g r := by
  intro all
  rw [FitsAll,passed.fits_iff_missing (fun _ member => member.1)]
  have mapped : missing g7 f (leafPages g r) = 0 := by
    refine missing_zero (passed.copied.good.mirrors.tables.tree f passed.child_root_after_copying) fun n member => ?_
    have := member.1
    exact ⟨by omega,all n member⟩
  have paid := passed.paid_all
  omega

theorem space_kept {q : Nat} (isRootQ : g.own q = .root) : space m7 g7 q = space m g q := by
  have other : q ≠ f := unused_ne passed.unused isRootQ (by simp) (by simp)
  rw [space_unseen passed.copied.unseen (passed.root_after_sharing isRootQ),
    passed.shared.aside.spaces q other ((passed.root_child q).mpr (.inl isRootQ))]
  funext n
  refine space_same isRootQ (by rw [child_tree other]) passed.change fun e leaf => ?_
  exact not_taken passed.after passed.unused (passed.good.sound.user leaf) (by simp) (by simp)

theorem child_space_or_short (n : Nat) : space m7 g7 f n = space m g r n ∨ (space m7 g7 f n = none ∧ ¬ Fits g r) := by
  rw [← passed.space_kept passed.isRoot]
  by_cases low : n < 2^19
  · rw [space_low low,space_low low]
    by_cases mapped : ∃ e, UserLeaf g r n e
    · obtain ⟨e,leaf⟩ := mapped
      rcases passed.child_leaf_or_short leaf with same | ⟨zero,short⟩
      · exact .inl (by rw [same,passed.parent_leaf leaf])
      · exact .inr ⟨by rw [zero]; rfl,short⟩
    · have absent : ∀ e, ¬ UserLeaf g r n e := fun e leaf => mapped ⟨e,leaf⟩
      have noneP : pageAt m7.mem ((g7.tree r).leaf n) = none := by
        cases found : pageAt m7.mem ((g7.tree r).leaf n) with
        | none => rfl
        | some p =>
          obtain ⟨valid,user⟩ := pageAt_some found
          rw [passed.absent_leaf absent] at valid user
          exact absurd ⟨_,passed.isRoot,by omega,rfl,valid,user⟩ mapped
      have noneC : pageAt m7.mem ((g7.tree f).leaf n) = none := by
        cases found : pageAt m7.mem ((g7.tree f).leaf n) with
        | none => rfl
        | some p =>
          obtain ⟨valid,user⟩ := pageAt_some found
          by_cases device : n = devicePage ∧ (g6.tree r).leaf devicePage = deviceLeaf
          · obtain ⟨rfl,device⟩ := device
            exact absurd ⟨passed.child_root_after_copying,by omega,rfl,valid,user⟩ (passed.copied.plain device _)
          · rw [passed.copied.leaves _ _ (fun all => device all.2),passed.child_bare_after_sharing low absent] at valid
            exact absurd valid (by decide)
      exact .inl (by rw [noneC,noneP])
  · exact .inl (by rw [space,space,if_neg low,if_neg low])

theorem refs {n : Nat} {e : PTEntry} (leaf : UserLeaf g r n e) : g7.refs (ppn_to_addr e) = g.refs (ppn_to_addr e)+1 := by
  have counted := passed.shared.counted n e (passed.good.sound.low leaf) (passed.user_leaf_child_iff.mpr leaf)
  have there : UserLeaf g6 r n (sharedEntry e) :=
    ⟨passed.root_after_sharing passed.isRoot,leaf.inside,passed.shared.parent n e (passed.good.sound.low leaf) (passed.user_leaf_child_iff.mpr leaf),
      by rw [sharedEntry_valid]; exact leaf.valid,by rw [sharedEntry_u]; exact leaf.user⟩
  have isUser := passed.shared.good.sound.user there
  rw [ppn_sharedEntry] at isUser
  rw [(passed.copied.users _ isUser).2,counted,child_refs passed.after passed.unused (passed.good.sound.user leaf)]

theorem unshared {x : Nat} (isUser : g.own x = .user) (unmapped : ∀ n e, UserLeaf g r n e → ppn_to_addr e ≠ x) :
    g7.own x = .user ∧ g7.refs x = g.refs x := by
  have inChild : (child g r f).own x = .user :=
    (child_keeps passed.after passed.unused (by simp) (by simp) (by simp) (by simp) (by simp)).mpr isUser
  obtain ⟨isUser6,same6⟩ := passed.shared.unshared x inChild fun k e leaf => unmapped k e (passed.user_leaf_child_iff.mp leaf)
  obtain ⟨isUser7,same7⟩ := passed.copied.users x isUser6
  exact ⟨isUser7,by rw [same7,same6,child_refs passed.after passed.unused isUser]⟩

theorem kernel (x : Nat) : g7.own x = .kernel ↔ g.own x = .kernel := by
  rw [(passed.copied.unseen 0).kernel,passed.shared.aside.kernel,
    child_keeps passed.after passed.unused (by simp) (by simp) (by simp) (by simp) (by simp)]

/-- The bytes of a stack or of a table of the kernel half. -/
theorem bytes {x o : Nat} {who : Owner} (here : g.own x = who) (fixed : who = .kernel ∨ ∃ b, who = .stack b) (inside : o < 4096) :
    m7.mem (x+o) = m.mem (x+o) := by
  have used : who ≠ .free ∧ who ≠ .none := by
    rcases fixed with rfl | ⟨b,rfl⟩ <;> exact ⟨by simp,by simp⟩
  have first : m7.mem (x+o) = m5.mem (x+o) := by
    rcases fixed with rfl | ⟨b,rfl⟩
    · have inChild : (child g r f).own x = .kernel :=
        (child_keeps passed.after passed.unused (by simp) (by simp) (by simp) (by simp) (by simp)).mpr here
      rw [(passed.copied.unseen 0).kernel_bytes x o ((passed.shared.aside.kernel x).mpr inChild) inside,
        passed.shared.aside.kernel_bytes x o inChild inside]
    · have inChild : (child g r f).own x = .stack b := (child_own_stack x b passed.after passed.unused).mpr (.inl here)
      rw [(passed.copied.unseen 0).stack_bytes x b o ((passed.shared.aside.stack x b).mpr inChild) inside,
        passed.shared.aside.stack_bytes x b o inChild inside]
  rw [first]
  exact passed.change.byte (passed.good.mirrors.pool.managed (f := x) (by rw [here]; exact used.2)).1 inside
    (not_taken passed.after passed.unused here used.1 used.2)

theorem upper_leaf_kept {q n : Nat} (isRootQ : g.own q = .root) (high : 2^19 ≤ n) : (g7.tree q).leaf n = (g.tree q).leaf n := by
  have other : q ≠ f := unused_ne passed.unused isRootQ (by simp) (by simp)
  rw [(passed.copied.unseen 0).upper q n (passed.root_after_sharing isRootQ) high,
    passed.shared.aside.upper q n ((passed.root_child q).mpr (.inl isRootQ)) high,child_tree other]

theorem child_upper_leaf {n : Nat} (high : 2^19 ≤ n) : (g7.tree f).leaf n = (g.tree r).leaf n := by
  rw [(passed.copied.unseen 0).upper f n passed.child_root_after_sharing high,
    passed.shared.aside.upper f n ((passed.root_child f).mpr (.inr rfl)) high,child_leaf,if_neg (by omega)]

theorem upper_table_kept {q v : Nat} (isRootQ : g.own q = .root) (high : 2 ≤ v) : (g7.tree q).l2 v = (g.tree q).l2 v := by
  have other : q ≠ f := unused_ne passed.unused isRootQ (by simp) (by simp)
  rw [(passed.copied.unseen 0).tops q v (passed.root_after_sharing isRootQ) high,
    passed.shared.aside.tops q v ((passed.root_child q).mpr (.inl isRootQ)) high,child_tree other]

theorem child_upper_table {v : Nat} (high : 2 ≤ v) : (g7.tree f).l2 v = (g.tree r).l2 v := by
  rw [(passed.copied.unseen 0).tops f v passed.child_root_after_sharing high,
    passed.shared.aside.tops f v ((passed.root_child f).mpr (.inr rfl)) high,child_l2 high]

theorem next_grows : g.next ≤ g7.next := by
  have := passed.shared.aside.next
  have := (passed.copied.unseen 0).next
  have : (g.take f).next ≤ (child g r f).next := Nat.le_add_right _ _
  have := take_next g f
  omega

theorem tables_paid : room g7+tablesFor (leafPages g r)+1+KERNEL_STACK_PAGES = room g+missing g7 f (leafPages g r) := by
  have all := passed.paid_all
  rw [missing_child (fun _ member => member.1)] at all
  have := passed.rooms
  omega

theorem root_from_bump : (g.take f).next = g.next ∨ (g.free = [] ∧ (g.take f).next = g.next+4096) := by
  by_cases unowned : g.own f = .none
  · right
    have absent : f ∉ g.free := by
      intro listed
      rw [(passed.good.mirrors.pool.free f).mp listed] at unowned
      cases unowned
    have moved : (g.take f).next = g.next+4096 := by
      simp only [Ledger.take,unowned,if_true]
    refine ⟨?_,moved⟩
    rcases passed.first.2 with same | empty
    · omega
    · simpa [Ledger.take,List.erase_of_not_mem absent] using empty
  · left
    simp only [Ledger.take,unowned,if_false]

theorem spends : g7.free.length ≤ g.free.length ∧ (g7.next = (g.take f).next+KERNEL_STACK_PAGES*4096 ∨ g7.free = []) := by
  have both := passed.shared.spends.trans passed.copied.spends
  refine ⟨?_,both.2⟩
  have fewer : (child g r f).free.length ≤ g.free.length := passed.first.1
  exact both.1.trans fewer

theorem forked : Forked exact base r f (g.take f).next m m7 g g7 where
  good := passed.copied.good
  roots x := by rw [(passed.copied.unseen 0).roots,passed.shared.aside.roots,passed.root_child]
  fresh_root := passed.unused
  stack x b := by rw [(passed.copied.unseen 0).stack,passed.shared.aside.stack,child_own_stack x b passed.after passed.unused]
  fresh_stack := take_next g f
  spaces _ := passed.space_kept
  pages := passed.child_space_or_short
  parent _ _ := passed.parent_leaf
  child _ _ := passed.child_leaf_or_short
  reached _ _ leaf enough := (passed.child_leaf_reached leaf).resolve_right fun short => absurd short.2 (by omega)
  needed := passed.fits_of_leaves
  device := passed.child_device_or_short
  absent _ low absent := ⟨passed.absent_leaf absent,passed.child_absent low absent⟩
  needed_all := passed.fitsAll_of_leaves
  refs _ _ := passed.refs
  unshared _ := passed.unshared
  tops _ _ := passed.upper_table_kept
  tops_child _ := passed.child_upper_table
  kernel := passed.kernel
  kernel_bytes _ _ here := passed.bytes here (.inl rfl)
  upper _ _ := passed.upper_leaf_kept
  upper_child _ := passed.child_upper_leaf
  stack_bytes _ b _ here := passed.bytes here (.inr ⟨b,rfl⟩)
  next := passed.next_grows
  paid := passed.tables_paid
  bump := passed.root_from_bump
  spends := passed.spends

end Passed

/-- Both traversals of a fork run. -/
theorem fork_pages (good : Good exact base m g) (parent : PageTable) (isRoot : g.own parent.root = .root)
    (fits : exact = true → Fits g parent.root) {m1 m5 : Mm} (after : Mirrors base 2 m1 (g.take f))
    (unused : g.own f = .free ∨ g.own f = .none) (rooms : room (child g parent.root f)+1+KERNEL_STACK_PAGES = room g)
    (first : Spends g (g.take f)) (ready : Good exact base m5 (child g parent.root f)) (change : Confined (Taken g f) m.mem m5.mem) :
    ∃ m6 m7 g6 g7, (parent.for_each_leaf 0 KERNEL_VPN2_MIN (fork_user_leaf { root := f, frame_alloc := alloc_frame })).run m5 =
        .ok ⟨⟩ m6 ∧
      (parent.for_each_leaf 0 KERNEL_VPN2_MIN (fork_kernel_leaf { root := f, frame_alloc := alloc_frame })).run m6 = .ok ⟨⟩ m7 ∧
      Passed exact base parent.root f m1 m m5 m6 m7 g g6 g7 := by
  have different : f ≠ parent.root := (unused_ne unused isRoot (by simp) (by simp)).symm
  have rootC : ∀ x, (child g parent.root f).own x = .root ↔ g.own x = .root ∨ x = f := fun x => child_own_root x after unused
  have users := fun {n e} => userPages_child (r := parent.root) (n := n) (e := e) unused after different.symm
  have pagesC : { k | ∃ e, UserLeaf (child g parent.root f) parent.root k e } = userPages g parent.root := by
    ext k
    simp only [userPages,Set.mem_ofPred_eq,users]
  have needs : missing (child g parent.root f) f (userPages g parent.root) = tablesFor (userPages g parent.root) := by
    refine missing_child ?_
    rintro n ⟨e,leaf⟩
    exact good.sound.low leaf
  have spare : ∀ x, (child g parent.root f).own x = .user →
      (child g parent.root f).refs x+1 ≤ ((child g parent.root f).next-base)/4096 := by
    intro x isUser
    have isUser0 := (child_keeps after unused (by simp) (by simp) (by simp) (by simp) (by simp)).mp isUser
    have bounded := good.sound.bounded x isUser0
    have next : (child g parent.root f).next = (g.take f).next+8*4096 := rfl
    have grown := take_next g f
    have order := good.mirrors.pool.order
    rw [child_refs after unused isUser0,next]
    omega
  have bare : ∀ k, k < 2^19 → ((child g parent.root f).tree f).leaf k = 0 := fun k low => by rw [child_leaf,if_pos low]
  obtain ⟨m6,g6,run6,shared⟩ := share_all (c := f) ready parent { root := f, frame_alloc := alloc_frame } rfl rfl
    ((rootC _).mpr (.inl isRoot)) ((rootC f).mpr (.inr rfl)) different bare spare (by
      rw [pagesC,needs]
      intro yes
      have := fits yes
      unfold Fits at this
      omega)
  have isRoot6 := (shared.aside.roots parent.root).mpr ((rootC _).mpr (.inl isRoot))
  have isChild6 := (shared.aside.roots f).mpr ((rootC f).mpr (.inr rfl))
  have plain6 : (g6.tree parent.root).leaf devicePage = deviceLeaf → ∀ d, ¬ UserLeaf g6 f devicePage d := by
    intro device d leaf
    have none : ∀ e, ¬ UserLeaf (child g parent.root f) parent.root devicePage e := by
      intro e there
      have marked := shared.parent devicePage e (by decide) there
      rw [device] at marked
      have user := there.user
      rw [← sharedEntry_u,← marked] at user
      exact absurd user (by decide)
    have zero := shared.bare devicePage (by decide) (.inr none)
    rw [← leaf.entry,zero] at leaf
    exact absurd leaf.valid (by decide)
  obtain ⟨m7,g7,run7,copied⟩ := copy_devices (c := f) shared.good parent { root := f, frame_alloc := alloc_frame } rfl rfl isRoot6 isChild6
    different plain6
  exact ⟨m6,m7,g6,g7,run6,run7,good,isRoot,after,unused,rooms,first,change,shared,copied⟩

/-- Memory has a frame for a root and, above the bump pointer, a kernel stack. -/
def StackFits (m : Mm) : Prop :=
  m.next_frame+(if m.free_list_head = 0 then KERNEL_STACK_PAGES+1 else KERNEL_STACK_PAGES)*4096 ≤ RAM_BASE+RAM_SIZE

/-- The panics of a fork without frames. -/
def Exhausted (e : Panic) : Prop :=
  e = .panic "fork: no frame for root page table" ∨ e = .panic "fork: no frames for kernel stack"

/-- `fork_memory` makes the memory of a child, or panics for want of a root or a stack. -/
theorem fork_memory_spec (good : Good exact base m g) (parent : PageTable) (isRoot : g.own parent.root = .root)
    (fits : exact = true → Fits g parent.root) :
    (¬ StackFits m ∧ ∃ e m', Exhausted e ∧ (fork_memory parent).run m = .error e m') ∨
    ∃ c s m' g', StackFits m ∧ (fork_memory parent).run m = .ok ({ root := c, frame_alloc := alloc_frame },s) m' ∧
      Forked exact base parent.root c s m m' g g' := by
  unfold fork_memory
  have total : RAM_BASE+RAM_SIZE = RAM_END := rfl
  have eight : KERNEL_STACK_PAGES = 8 := rfl
  have nextG := good.mirrors.pool.next
  rcases take_frame good with ⟨full,run⟩ | ⟨f,m1,run,mem,unused,bound,held,_,less⟩
  · left
    refine ⟨?_,.panic "fork: no frame for root page table",m,.inl rfl,by rw [run_seq run]; rfl⟩
    have high := good.mirrors.pool.high
    unfold room at full
    unfold StackFits
    rw [total,nextG,eight]
    split <;> omega
  have moved := alloc_frame_next run
  rw [run_seq run]
  dsimp only
  rw [run_seq (run_write_bytes _ _ _ _)]
  have different : parent.root ≠ f := unused_ne unused isRoot (by simp) (by simp)
  have alignedR := good.mirrors.tables.aligned _ isRoot
  have zeroed := confined_fill m1.mem (p := f) 0 held.aligned
  obtain ⟨held2,_⟩ := held.write zeroed
  obtain ⟨mem3,run3,change3,words⟩ := copy_kernel_half_spec (m := { m1 with mem := fill m1.mem f 0 4096 }) held.aligned alignedR
    different (fun w inside => load64_fill_zero (by simp only [entry_at]; omega) (by simp only [entry_at]; omega))
  rw [run_seq run3]
  obtain ⟨held3,_⟩ := held2.write change3
  rcases held_stretch held3 KERNEL_STACK_PAGES (by decide) (by decide) with ⟨full,run4⟩ |
    ⟨m4,run4,mem4,left,held4⟩
  · left
    refine ⟨?_,.panic "fork: no frames for kernel stack",_,.inr rfl,by rw [run_seq run4]; rfl⟩
    rw [held.mirrors.pool.next] at moved
    unfold StackFits
    rw [total]
    rw [eight] at full ⊢
    split at moved <;> rename_i listed <;> simp only [listed,if_true,if_false] <;> omega
  rw [run_seq run4]
  dsimp only
  rw [run_seq (run_write_bytes _ _ _ _)]
  have change : Confined (· = f) m.mem m4.mem := by
    rw [mem4,← mem]
    exact zeroed.trans change3
  have rooms := room_child (r := parent.root) held.mirrors less left
  have stack_fits : StackFits m := by
    rw [held.mirrors.pool.next] at moved
    unfold StackFits
    rw [total]
    rw [eight] at left ⊢
    split at moved <;> rename_i listed <;> simp only [listed,if_true,if_false] <;> omega
  clear left moved total nextG
  have words4 : ∀ w, w < 512 → load64 m4.mem (entry_at f w) = if w < 2 then 0 else load64 m.mem (entry_at parent.root w) := by
    intro w inside
    have kept : load64 (fill m1.mem f 0 4096) (entry_at parent.root w) = load64 m1.mem (entry_at parent.root w) :=
      zeroed.load alignedR (by omega) different
    rw [mem4,words w inside,kept,mem]
  obtain ⟨ready,total⟩ := child_good good isRoot held.mirrors unused held4 change bound words4
  obtain ⟨m6,m7,g6,g',run6,run7,passed⟩ := fork_pages good parent isRoot fits held.mirrors unused rooms
    (spends_take good.mirrors.pool run held.mirrors.pool) ready total
  right
  refine ⟨f,(g.take f).next,m7,g',stack_fits,?_,passed.forked⟩
  rw [run_seq run6,run_seq run7]
  rfl

end

end Unit00.Forking
