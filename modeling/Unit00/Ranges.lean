import Unit00.Growing

/-!
Ranges of user pages: checking a range before the kernel writes to it, unmapping
it, and mapping zeroed frames with the rollback when there are not enough. Each
of them acts on the pages of one process as the reference system does.
-/
namespace Unit00.Ranges
open Unit00.Memory Unit00.Execution Unit00.Frame Unit00.Paging Unit00.Paging.PTEntry Unit00.Trees Unit00.Ownership
open Unit00.Mirror Unit00.Space Unit00.Pages Unit00.Growing
open Unit00.Eager (Page Pages Writable unmap fillPages)

/-- An operation for the root `r` that leaves it with the pages `s`. -/
structure Acts (exact : Bool) (base r : Nat) (m m' : Mm) (g g' : Ledger) (s : Pages) : Prop where
  good : Good exact base m' g'
  aside : Aside r m m' g g'
  pages : space m' g' r = s

theorem Acts.refl {exact : Bool} {base r : Nat} {m : Mm} {g : Ledger} (good : Good exact base m g) :
    Acts exact base r m m g g (space m g r) := ⟨good,Aside.refl r m g,rfl⟩

theorem Acts.trans {exact : Bool} {base r : Nat} {a b c : Mm} {x y z : Ledger} {s t : Pages}
    (first : Acts exact base r a b x y s) (second : Acts exact base r b c y z t) : Acts exact base r a c x z t :=
  ⟨second.good,first.aside.trans second.aside,second.pages⟩

/-- An operation that no process sees changes no pages. -/
theorem space_unseen {m m' : Mm} {g g' : Ledger} (unseen : ∀ q, Aside q m m' g g') {r : Nat} (isRoot : g.own r = .root) :
    space m' g' r = space m g r := (unseen (r+1)).spaces r (by omega) isRoot

section
variable {exact : Bool} {base : Nat} {m : Mm} {g : Ledger} {r : Nat} (pt : PageTable)

/-! ### Checking a range -/

/-- The process may write the page now, without a fault. -/
def Writes (g : Ledger) (r n : Nat) : Prop := ∃ e, UserLeaf g r n e ∧ is_w e = true

/-- A user page of a process. -/
def UserPage (g : Ledger) (r n : Nat) : Prop := ∃ e, UserLeaf g r n e

theorem Writes.there {g : Ledger} {r n : Nat} (writes : Writes g r n) : UserPage g r n := by
  obtain ⟨e,leaf,_⟩ := writes
  exact ⟨e,leaf⟩

/-- An entry with U set, or a copy on write pending, is that of a user page. -/
theorem user_leaf_of (good : Good exact base m g) (isRoot : g.own r = .root) {n : Nat} (inside : n < 2^27)
    (user : is_u ((g.tree r).leaf n) = true) : n < 2^19 ∧ UserLeaf g r n ((g.tree r).leaf n) := by
  by_cases low : n < 2^19
  · refine ⟨low,isRoot,inside,rfl,?_,user⟩
    by_contra invalid
    rcases good.sound.plain r n isRoot low (fun both => invalid both.1) with zero | ⟨_,device⟩
    · rw [zero] at user
      exact absurd user (by decide)
    · rw [device] at user
      exact absurd user (by decide)
  · rw [good.sound.upper r n isRoot (by omega) inside] at user
    cases user

theorem space_writable {n : Nat} {p : Page} (isRoot : g.own r = .root) (here : space m g r n = some p)
    (writable : p.writable = true) :
    UserLeaf g r n ((g.tree r).leaf n) ∧ (is_w ((g.tree r).leaf n) || is_cow ((g.tree r).leaf n)) = true := by
  obtain ⟨low,leaf⟩ := space_leaf isRoot here
  rw [space_low low,pageAt_user leaf.valid leaf.user,Option.some.injEq] at here
  refine ⟨leaf,?_⟩
  rw [← writable,← here]

theorem Writes.page {n : Nat} (writes : Writes g r n) (low : n < 2^19) :
    ∃ p, space m g r n = some p ∧ p.writable = true := by
  obtain ⟨e,leaf,w⟩ := writes
  rw [space_low low,leaf.entry,pageAt_user leaf.valid leaf.user]
  exact ⟨_,rfl,by simp [w]⟩

/-- What checking pages of `r` for writing does. -/
structure Checks (exact : Bool) (base r : Nat) (m m' : Mm) (g g' : Ledger) : Prop where
  acts : Acts exact base r m m' g g' (space m g r)
  keeps : ∀ n, Writes g r n → Writes g' r n

theorem Checks.refl (good : Good exact base m g) : Checks exact base r m m g g := ⟨Acts.refl good,fun _ h => h⟩

theorem Checks.trans {a b c : Mm} {x y z : Ledger} (first : Checks exact base r a b x y) (second : Checks exact base r b c y z) :
    Checks exact base r a c x z := by
  refine ⟨?_,fun n h => second.keeps n (first.keeps n h)⟩
  rw [← first.acts.pages]
  exact first.acts.trans second.acts

/-- A page that is copied on write because its frame is shared. -/
def SharedCow (g : Ledger) (r n : Nat) : Prop := ∃ e, UserLeaf g r n e ∧ is_cow e = true ∧ 1 < g.refs (ppn_to_addr e)

/-- What making one page writable costs: a frame when the page was shared. -/
structure Spent (r n : Nat) (g g' : Ledger) : Prop where
  shared : ∀ k, SharedCow g' r k ↔ SharedCow g r k ∧ k ≠ n
  cost : (SharedCow g r n ∧ room g'+1 = room g) ∨ (¬ SharedCow g r n ∧ room g' = room g)

theorem spent_idle {n : Nat} {e : PTEntry} (sound : Sound exact nothing base g) (leaf : UserLeaf g r n e) (w : is_w e = true) :
    Spent r n g g := by
  have own : ¬ SharedCow g r n := by
    rintro ⟨d,here,cow,_⟩
    rw [here.unique leaf] at cow
    rw [((sound.shape leaf).cow cow).2] at w
    cases w
  refine ⟨fun k => ⟨fun shared => ⟨shared,?_⟩,And.left⟩,.inr ⟨own,rfl⟩⟩
  rintro rfl
  exact own shared

theorem Resolves.spent {n : Nat} {m' : Mm} {g' : Ledger} {e : PTEntry}
    (resolves : Resolves exact base r n m m' g g') (leaf : UserLeaf g r n e) (cow : is_cow e = true) : Spent r n g g' := by
  obtain ⟨c,now,w⟩ := resolves.writable
  refine ⟨fun k => ⟨?_,?_⟩,?_⟩
  · rintro ⟨d,here,cowK,many⟩
    have other : k ≠ n := by
      rintro rfl
      rw [here.unique now] at cowK
      rw [((resolves.good.sound.shape now).cow cowK).2] at w
      cases w
    have old : UserLeaf g r k d := by
      refine ⟨leaf.root,here.inside,?_,here.valid,here.user⟩
      rw [← resolves.rest k other]
      exact here.entry
    rw [resolves.refs k d other old] at many
    exact ⟨⟨d,old,cowK,many⟩,other⟩
  · rintro ⟨⟨d,old,cowK,many⟩,other⟩
    rw [← resolves.refs k d other old] at many
    refine ⟨d,⟨now.root,old.inside,?_,old.valid,old.user⟩,cowK,many⟩
    rw [resolves.rest k other]
    exact old.entry
  · have cost := resolves.cost
    rw [leaf.entry] at cost
    by_cases many : 1 < g.refs (ppn_to_addr e)
    · rw [if_pos many] at cost
      exact .inl ⟨⟨e,leaf,cow,many⟩,cost⟩
    · rw [if_neg many] at cost
      refine .inr ⟨?_,cost⟩
      rintro ⟨d,here,_,shared⟩
      rw [here.unique leaf] at shared
      exact many shared

theorem ensure_user_page_write (good : Good exact base m g) (isRoot : g.own pt.root = .root) (va : Nat) :
    ((room g = 0 ∧ SharedCow g pt.root (pageOf va)) ∧
      ∃ m', (ensure_user_page pt va true).run m = .error (.panic "COW: alloc_frame failed") m') ∨
    ∃ res m' g', (ensure_user_page pt va true).run m = .ok res m' ∧ Checks exact base pt.root m m' g g' ∧
      match res with
      | .ok _ => Writes g' pt.root (pageOf va) ∧ Spent pt.root (pageOf va) g g'
      | .error _ => ¬ ∃ p, space m g pt.root (pageOf va) = some p ∧ p.writable = true := by
  have inside := pageOf_lt va
  unfold ensure_user_page
  rw [run_seq (good.lookup pt isRoot va)]
  cases slot : leafSlot (g.tree pt.root) (pageOf va) with
  | none =>
    right
    refine ⟨.error (linux_error EFAULT),m,g,rfl,Checks.refl good,?_⟩
    rintro ⟨p,here,_⟩
    have leaf := (space_leaf isRoot here).2
    rw [leaf_no_slot good.mirrors isRoot inside slot] at leaf
    exact absurd leaf.valid (by decide)
  | some entry =>
    have word := load_slot good.mirrors isRoot inside slot
    dsimp only
    rw [run_seq (run_read _ _),word]
    by_cases user : is_u ((g.tree pt.root).leaf (pageOf va)) = true
    · obtain ⟨low,leaf⟩ := user_leaf_of good isRoot inside user
      rw [if_neg (by simp [user])]
      simp only [if_true]
      rw [run_seq (run_read _ _),word]
      by_cases pending : cow_pending ((g.tree pt.root).leaf (pageOf va)) = true
      · have cow : is_cow ((g.tree pt.root).leaf (pageOf va)) = true := by
          simp only [cow_pending,Bool.and_eq_true] at pending
          exact pending.1.1
        rw [if_pos pending]
        rcases handle_cow_fault_spec good leaf cow slot with ⟨⟨full,many⟩,failed⟩ | ⟨m',g',run,resolves⟩
        · left
          exact ⟨⟨full,_,leaf,cow,many⟩,_,run_seq_error failed⟩
        · right
          obtain ⟨e,leaf',w⟩ := resolves.writable
          have table : leafSlot (g'.tree pt.root) (pageOf va) = some entry := by rw [resolves.slots]; exact slot
          have word' : load64 m'.mem entry = e := by
            rw [load_slot resolves.good.mirrors leaf'.root inside table]
            exact leaf'.entry
          refine ⟨.ok (),m',g',?_,⟨⟨resolves.good,resolves.aside,resolves.same⟩,?_⟩,⟨e,leaf',w⟩,
            Resolves.spent resolves leaf cow⟩
          · rw [run_seq run,run_seq (run_read _ _),word',if_neg (by simp [w])]
            rfl
          · rintro n ⟨d,old,w'⟩
            by_cases same : n = pageOf va
            · exact same ▸ ⟨e,leaf',w⟩
            · refine ⟨d,⟨leaf'.root,old.inside,?_,old.valid,old.user⟩,w'⟩
              rw [resolves.rest n same]
              exact old.entry
      · rw [if_neg pending]
        right
        by_cases w : is_w ((g.tree pt.root).leaf (pageOf va)) = true
        · refine ⟨.ok (),m,g,?_,Checks.refl good,⟨_,leaf,w⟩,spent_idle good.sound leaf w⟩
          rw [run_seq (run_read _ _),word,if_neg (by simp [w])]
          rfl
        · refine ⟨.error (linux_error EFAULT),m,g,?_,Checks.refl good,?_⟩
          · rw [run_seq (run_read _ _),word,if_pos (by simp [w])]
            rfl
          · rintro ⟨p,here,writable⟩
            obtain ⟨_,marks⟩ := space_writable isRoot here writable
            rw [Bool.not_eq_true] at w
            rw [w,Bool.false_or] at marks
            have shape := good.sound.shape leaf
            exact pending (by simp [cow_pending,marks,(shape.cow marks).1,w])
    · rw [if_pos (by simp [user])]
      right
      refine ⟨.error (linux_error EFAULT),m,g,rfl,Checks.refl good,?_⟩
      rintro ⟨p,here,_⟩
      exact user (space_leaf isRoot here).2.user

/-- The result of checking the addresses of a range of pages for writing. -/
def Checked (s : Pages) (g' : Ledger) (r lo hi : Nat) : Except Nat Unit → Prop
  | .ok _ => ∀ va, lo ≤ va → va ≤ hi → Writes g' r (pageOf va)
  | .error _ => ¬ ∀ va, lo ≤ va → va ≤ hi → ∃ p, s (pageOf va) = some p ∧ p.writable = true

theorem pageOf_same {va page : Nat} (aligned : page%4096 = 0) (low : page ≤ va) (high : va < page+4096) :
    pageOf va = pageOf page := by
  have : va/4096 = page/4096 := by omega
  rw [pageOf,pageOf,this]

/-- The pages of a range that are copied when it is made writable. -/
def copies (g : Ledger) (r lo hi : Nat) : Set Nat := { n | SharedCow g r n ∧ ∃ va, lo ≤ va ∧ va ≤ hi ∧ pageOf va = n }

theorem copies_finite (g : Ledger) (r lo hi : Nat) : (copies g r lo hi).Finite := by
  refine (Set.finite_lt_nat (2^27)).subset ?_
  rintro n ⟨⟨e,leaf,_⟩,_⟩
  exact leaf.inside

theorem Spent.copies_less {lo hi : Nat} {g' : Ledger} (spent : Spent r (pageOf lo) g g') (order : lo ≤ hi)
    (short : room g' < (copies g' r (lo+4096) hi).ncard) : room g < (copies g r lo hi).ncard := by
  have inside : copies g' r (lo+4096) hi ⊆ copies g r lo hi := by
    rintro n ⟨shared,va,low,high,page⟩
    exact ⟨((spent.shared n).mp shared).1,va,by omega,high,page⟩
  rcases spent.cost with ⟨shared,less⟩ | ⟨_,same⟩
  · have here : pageOf lo ∈ copies g r lo hi := ⟨shared,lo,le_refl _,order,rfl⟩
    have gone : pageOf lo ∉ copies g' r (lo+4096) hi := fun there => ((spent.shared _).mp there.1).2 rfl
    have fewer := Set.ncard_lt_ncard (Set.ssubset_iff_subset_ne.mpr ⟨inside,fun equal => gone (equal ▸ here)⟩)
      (copies_finite g r lo hi)
    omega
  · have fewer := Set.ncard_le_ncard inside (copies_finite g r lo hi)
    omega

/-- A range is paid for when its first page was and the rest is. -/
theorem Spent.copies_paid {lo hi : Nat} {g' : Ledger} (spent : Spent r (pageOf lo) g g') (aligned : lo%4096 = 0)
    (paid : (copies g' r (lo+4096) hi).ncard ≤ room g') : (copies g r lo hi).ncard ≤ room g := by
  have inside : copies g r lo hi ⊆ insert (pageOf lo) (copies g' r (lo+4096) hi) := by
    rintro n ⟨shared,va,low,high,page⟩
    by_cases here : n = pageOf lo
    · exact .inl here
    · have later : lo+4096 ≤ va := by
        by_contra early
        exact here (page.symm.trans (pageOf_same aligned low (by omega)))
      exact .inr ⟨(spent.shared n).mpr ⟨shared,here⟩,va,later,high,page⟩
  rcases spent.cost with ⟨_,less⟩ | ⟨own,same⟩
  · have grown := Set.ncard_le_ncard inside ((copies_finite g' r _ _).insert _)
    have one := Set.ncard_insert_le (pageOf lo) (copies g' r (lo+4096) hi)
    omega
  · have rest : copies g r lo hi ⊆ copies g' r (lo+4096) hi := by
      intro n there
      refine (inside there).resolve_left ?_
      rintro rfl
      exact own there.1
    have grown := Set.ncard_le_ncard rest (copies_finite g' r _ _)
    omega

theorem ensure_user_pages_write (good : Good exact base m g) (isRoot : g.own pt.root = .root) {last page : Nat}
    (aligned : page%4096 = 0) (order : page ≤ mask_page last) :
    (room g < (copies g pt.root page last).ncard ∧
      ∃ m', (ensure_user_pages pt last page true).run m = .error (.panic "COW: alloc_frame failed") m') ∨
    ∃ res m' g', (ensure_user_pages pt last page true).run m = .ok res m' ∧ Checks exact base pt.root m m' g g' ∧
      Checked (space m g pt.root) g' pt.root page last res ∧
      (res = .ok () → (copies g pt.root page last).ncard ≤ room g) := by
  have below : mask_page last ≤ last ∧ last < mask_page last+4096 ∧ mask_page last%4096 = 0 := by
    simp only [mask_page]
    omega
  have short : ∀ {page : Nat} {g : Ledger}, page ≤ mask_page last → room g = 0 → SharedCow g pt.root (pageOf page) →
      room g < (copies g pt.root page last).ncard := by
    intro page g order full shared
    rw [full]
    exact (Set.ncard_pos (copies_finite g _ _ _)).mpr ⟨_,shared,page,le_refl _,by omega,rfl⟩
  -- The induction is on the pages that are left.
  induction left : (mask_page last-page)/4096 generalizing page m g with
  | zero =>
    have final : page = mask_page last := by omega
    unfold ensure_user_pages
    rcases ensure_user_page_write pt good isRoot page with ⟨⟨full,shared⟩,m',failed⟩ | ⟨res,m',g',run,checks,result⟩
    · exact .inl ⟨short order full shared,m',run_seq_error failed⟩
    right
    rw [run_seq run]
    cases res with
    | error e =>
      refine ⟨.error e,m',g',rfl,checks,fun all => result (all page (le_refl _) (by omega)),by simp⟩
    | ok _ =>
      dsimp only
      rw [dif_pos (by omega)]
      refine ⟨.ok (),m',g',rfl,checks,?_,fun _ => ?_⟩
      · intro va low high
        rw [pageOf_same aligned low (by omega)]
        exact result.1
      · have none : copies g' pt.root (page+4096) last = ∅ := by
          refine Set.eq_empty_of_forall_notMem ?_
          rintro n ⟨_,va,low,high,_⟩
          omega
        exact result.2.copies_paid aligned (by rw [none,Set.ncard_empty]; omega)
  | succ rest ih =>
    have more : page < mask_page last := by omega
    unfold ensure_user_pages
    rcases ensure_user_page_write pt good isRoot page with ⟨⟨full,shared⟩,m',failed⟩ | ⟨res,m',g',run,checks,result⟩
    · exact .inl ⟨short order full shared,m',run_seq_error failed⟩
    rw [run_seq run]
    cases res with
    | error e =>
      right
      exact ⟨.error e,m',g',rfl,checks,fun all => result (all page (le_refl _) (by omega)),by simp⟩
    | ok _ =>
      dsimp only
      rw [dif_neg (by omega)]
      have isRoot' := (checks.acts.aside.roots _).mpr isRoot
      rcases ih checks.acts.good isRoot' (show (page+4096)%4096 = 0 by omega) (by omega) (by omega) with
        ⟨less,failed⟩ | ⟨res,m'',g'',run',checks',result',paid⟩
      · exact .inl ⟨result.2.copies_less (by omega) less,failed⟩
      right
      refine ⟨res,m'',g'',run',checks.trans checks',?_,fun done => result.2.copies_paid aligned (paid done)⟩
      rw [checks.acts.pages] at result'
      cases res with
      | error e =>
        intro all
        exact result' fun va low high => all va (by omega) high
      | ok _ =>
        intro va low high
        by_cases first : va < page+4096
        · rw [pageOf_same aligned low first]
          exact checks'.keeps _ result.1
        · exact result' va (by omega) high

/-- `ensure_user_range` for writing: it succeeds exactly when the process may write
    the range, and no process sees that it ran. -/
theorem ensure_user_range_write (good : Good exact base m g) (isRoot : g.own pt.root = .root) (ptr : Nat) {len : Nat} (some_bytes : len ≠ 0) :
    (room g < (copies g pt.root (mask_page ptr) (ptr+(len-1))).ncard ∧
      ∃ m', (ensure_user_range pt ptr len true).run m = .error (.panic "COW: alloc_frame failed") m') ∨
    ∃ res m' g', (ensure_user_range pt ptr len true).run m = .ok res m' ∧ Checks exact base pt.root m m' g g' ∧
      match res with
      | .ok _ => (Writable (space m g pt.root) ptr len ∧
            (copies g pt.root (mask_page ptr) (ptr+(len-1))).ncard ≤ room g) ∧
          ∀ va, mask_page ptr ≤ va → va ≤ ptr+(len-1) → Writes g' pt.root (pageOf va)
      | .error _ => ¬ Writable (space m g pt.root) ptr len := by
  unfold ensure_user_range
  rw [if_neg some_bytes]
  by_cases null : ptr = 0
  · rw [if_pos null]
    right
    exact ⟨.error (linux_error EFAULT),m,g,rfl,Checks.refl good,fun writable => writable.1 null⟩
  rw [if_neg null]
  have floor : mask_page ptr ≤ ptr ∧ mask_page ptr%4096 = 0 := by
    simp only [mask_page]
    omega
  cases added : checked_add ptr (len-1) with
  | none =>
    right
    refine ⟨.error (linux_error EFAULT),m,g,rfl,Checks.refl good,?_⟩
    rintro ⟨_,bound,_⟩
    rw [checked_add,if_pos bound] at added
    cases added
  | some last =>
    obtain ⟨sum,bound⟩ := checked_add_some added
    dsimp only
    have order : mask_page ptr ≤ mask_page last := by
      simp only [mask_page]
      omega
    rcases ensure_user_pages_write pt good isRoot floor.2 order with ⟨less,failed⟩ | ⟨res,m',g',run,checks,result,paid⟩
    · rw [sum]
      exact .inl ⟨less,failed⟩
    right
    refine ⟨res,m',g',run,checks,?_⟩
    cases res with
    | error e =>
      rintro ⟨_,_,all⟩
      exact result fun va low high => all va low (by omega)
    | ok _ =>
      refine ⟨⟨⟨null,by omega,?_⟩,by rw [sum]; exact paid rfl⟩,fun va low high => result va low (by omega)⟩
      intro va low high
      have writes := result va low (by omega)
      obtain ⟨e,leaf,w⟩ := writes
      rw [← checks.acts.pages]
      exact Writes.page ⟨e,leaf,w⟩ (checks.acts.good.sound.low leaf)

/-! ### Unmapping -/

/-- A frame with one reference is mapped at one page of one process. -/
theorem last_mapper (sound : Sound exact nothing base g) {n : Nat} {e : PTEntry} (leaf : UserLeaf g r n e)
    (last : g.refs (ppn_to_addr e) = 1) {q k : Nat} {d : PTEntry} (other : UserLeaf g q k d)
    (same : ppn_to_addr d = ppn_to_addr e) : q = r ∧ k = n := by
  refine ⟨?_,sound.page other leaf same⟩
  by_contra different
  have := sound.two leaf other same.symm different
  omega

/-- The entry of a user page is cleared and its frame loses a reference. -/
theorem unmap_leaf (good : Good exact base m g) {n entry : Nat} {e : PTEntry} (leaf : UserLeaf g r n e)
    (slot : leafSlot (g.tree r) n = some entry) :
    ∃ c m1 m2 g', (dec_ref (ppn_to_addr e)).run m = .ok c m1 ∧ (Frame.write entry empty).run m1 = .ok ⟨⟩ m2 ∧
      Acts exact base r m m2 g g' (unmap n (n+1) (space m g r)) ∧ g' = setLeaf (g.drop (ppn_to_addr e)) r n 0 := by
  have isUser := good.sound.user leaf
  have low := good.sound.low leaf
  obtain ⟨c,m1,run,dropped,changeDec⟩ := good.mirrors.dec (f := ppn_to_addr e) (by rw [isUser]; simp) (by rw [isUser]; simp)
    (by rw [isUser]; rfl) (good.sound.positive _ isUser)
  have root1 : (g.drop (ppn_to_addr e)).own r = .root := (good.sound.drop_root leaf).mpr leaf.root
  have slot1 : leafSlot ((g.drop (ppn_to_addr e)).tree r) n = some entry := by rw [drop_tree]; exact slot
  obtain ⟨written,b,owner1,changeEntry⟩ := write_leaf dropped root1 leaf.inside (by omega) slot1 0
  have owner : g.own b = .l1 r (n/512) := by
    rw [drop_own] at owner1
    split at owner1
    · cases owner1
    · exact owner1
  have change : Confined (fun p => (p = ppn_to_addr e ∧ g.refs (ppn_to_addr e) = 1) ∨ p = b) m.mem (store64 m1.mem entry 0) :=
    (changeDec.mono fun _ h => .inl h).trans (changeEntry.mono fun _ h => .inr h)
  have leaves : ∀ {q k}, ¬ (q = r ∧ k = n) →
      ((setLeaf (g.drop (ppn_to_addr e)) r n 0).tree q).leaf k = (g.tree q).leaf k := by
    intro q k other
    rw [leaf_setLeaf_other _ _ other,drop_tree]
  have keeps : ∀ {x : Nat} {o : Owner}, o ≠ .free → o ≠ .user →
      ((setLeaf (g.drop (ppn_to_addr e)) r n 0).own x = o ↔ g.own x = o) := by
    intro x o used plain
    rw [setLeaf_own,drop_own]
    split
    · rename_i freed
      rw [freed.1,isUser]
      exact ⟨fun h => absurd h.symm used,fun h => absurd h.symm plain⟩
    · rfl
  refine ⟨c,m1,{ m1 with mem := store64 m1.mem entry 0 },_,run,rfl,⟨⟨written,good.sound.unmap leaf rfl,?_⟩,?_,?_⟩,rfl⟩
  · exact fun x here => good.settled x ((keeps (by simp) (by simp)).mp here)
  · refine aside_of good.mirrors change ?_ (fun x => keeps (by simp) (by simp)) (fun x s => keeps (by simp) (by simp))
      (fun x => keeps (by simp) (by simp)) ?_ ?_ (by rw [setLeaf_next,drop_next])
    · rintro p (⟨rfl,last⟩ | rfl)
      · exact ⟨by rw [isUser]; simp,by rw [isUser]; simp,fun other same => (last_mapper good.sound leaf last other same).1⟩
      · exact private_of good.sound (by rw [owner]; simp) (by rw [owner]; simp) (by rw [owner]; simp)
    · intro q k other
      exact leaves (by rintro ⟨rfl,rfl⟩; exact other ⟨rfl,low⟩)
    · intro q v _ _
      rw [(setLeaf_tables _ _ _ _).1,drop_tree]
  · funext k
    by_cases here : k = n
    · subst here
      rw [space_low low,leaf_setLeaf_self,pageAt_zero,unmap,if_pos (by omega)]
    · rw [unmap,if_neg (by omega)]
      refine space_same leaf.root (leaves fun both => here both.2) change ?_
      rintro d other (⟨same,last⟩ | same)
      · exact here (last_mapper good.sound leaf last other same).2
      · exact not_mapped good.sound owner (by simp) other same

theorem unmap_absent {s : Pages} {lo hi : Nat} (absent : ∀ n, lo ≤ n → n < hi → s n = none) : unmap lo hi s = s := by
  funext n
  unfold unmap
  split
  · rename_i inside
    exact (absent n inside.1 inside.2).symm
  · rfl

theorem unmap_user_page_spec (good : Good exact base m g) (isRoot : g.own pt.root = .root) (va : Nat) :
    ∃ m' g', (unmap_user_page pt va).run m = .ok ⟨⟩ m' ∧
      Acts exact base pt.root m m' g g' (unmap (pageOf va) (pageOf va+1) (space m g pt.root)) ∧
      ∀ {hi flags g0}, pageOf va < hi → UserFlags flags → Grown pt.root (pageOf va) hi flags g0 g →
        Grown pt.root (pageOf va+1) hi flags g0 g' := by
  have inside := pageOf_lt va
  unfold unmap_user_page
  rw [run_seq (good.lookup pt isRoot va)]
  have nothing_there : ¬ (is_valid ((g.tree pt.root).leaf (pageOf va)) = true ∧ is_u ((g.tree pt.root).leaf (pageOf va)) = true) →
      unmap (pageOf va) (pageOf va+1) (space m g pt.root) = space m g pt.root := by
    intro other
    refine unmap_absent fun n low high => ?_
    have : n = pageOf va := by omega
    subst this
    cases here : space m g pt.root (pageOf va) with
    | none => rfl
    | some p =>
      have leaf := (space_leaf isRoot here).2
      exact absurd ⟨leaf.valid,leaf.user⟩ other
  have mapped : ∀ {hi flags g0}, pageOf va < hi → UserFlags flags → Grown pt.root (pageOf va) hi flags g0 g →
      is_valid ((g.tree pt.root).leaf (pageOf va)) = true ∧ is_u ((g.tree pt.root).leaf (pageOf va)) = true := by
    intro hi flags g0 order user grown
    obtain ⟨f,entry,_⟩ := grown.pages _ (le_refl _) order
    rw [entry]
    exact user f
  cases slot : leafSlot (g.tree pt.root) (pageOf va) with
  | none =>
    have zero := leaf_no_slot good.mirrors isRoot inside slot
    refine ⟨m,g,rfl,?_,?_⟩
    · rw [nothing_there (by rw [zero]; decide)]
      exact Acts.refl good
    · intro hi flags g0 order user grown
      have there := (mapped order user grown).1
      rw [zero,is_valid_zero] at there
      cases there
  | some entry =>
    dsimp only
    rw [run_seq (run_read _ _),load_slot good.mirrors isRoot inside slot]
    by_cases there : is_valid ((g.tree pt.root).leaf (pageOf va)) = true ∧ is_u ((g.tree pt.root).leaf (pageOf va)) = true
    · obtain ⟨c,m1,m2,g',runDec,runWrite,acts,rfl⟩ := unmap_leaf good ⟨isRoot,inside,rfl,there.1,there.2⟩ slot
      refine ⟨m2,_,?_,acts,?_⟩
      · rw [if_pos (by simp [there]),run_seq runDec]
        exact runWrite
      · intro hi flags g0 order _ grown
        obtain ⟨f,here,frame,_⟩ := grown.pages _ (le_refl _) order
        have names : ppn_to_addr ((g.tree pt.root).leaf (pageOf va)) = f := by
          have ram : RAM_END = 0x88000000 := rfl
          obtain ⟨aligned,bound⟩ := frame
          rw [here,ppn_new_leaf flags aligned (by omega)]
        rw [names]
        exact grown.less order frame here
    · refine ⟨m,g,?_,?_,?_⟩
      · rw [if_neg (by simpa using there)]
        rfl
      · rw [nothing_there there]
        exact Acts.refl good
      · intro hi flags g0 order user grown
        exact absurd (mapped order user grown) there

theorem unmap_unmap (lo mid hi : Nat) (s : Pages) (first : lo ≤ mid) (second : mid ≤ hi) :
    unmap mid hi (unmap lo mid s) = unmap lo hi s := by
  funext n
  simp only [unmap]
  split_ifs <;> first | rfl | omega

theorem pageOf_low {va : Nat} (low : va < 2^39) : pageOf va = va/4096 := by
  rw [pageOf,Nat.mod_eq_of_lt (by omega)]

theorem unmap_user_pages_spec (good : Good exact base m g) (isRoot : g.own pt.root = .root) (vaddr stop : Nat)
    (aligned : vaddr%4096 = 0) (end_aligned : stop%4096 = 0) (low : stop ≤ 2^39) :
    ∃ m' g', (unmap_user_pages pt vaddr stop).run m = .ok ⟨⟩ m' ∧
      Acts exact base pt.root m m' g g' (unmap (vaddr/4096) (stop/4096) (space m g pt.root)) ∧
      ∀ {flags g0}, vaddr ≤ stop → UserFlags flags → Grown pt.root (vaddr/4096) (stop/4096) flags g0 g →
        Grown pt.root (stop/4096) (stop/4096) flags g0 g' := by
  induction left : (stop-vaddr)/4096 generalizing vaddr m g with
  | zero =>
    refine ⟨m,g,?_,?_,?_⟩
    · unfold unmap_user_pages
      rw [dif_neg (by omega)]
      rfl
    · rw [unmap_absent (by intro n h h'; omega)]
      exact Acts.refl good
    · intro flags g0 order _ grown
      have final : vaddr = stop := by omega
      rwa [final] at grown
  | succ rest ih =>
    unfold unmap_user_pages
    rw [dif_pos (by omega)]
    obtain ⟨m',g',run,acts,lessen⟩ := unmap_user_page_spec pt good isRoot vaddr
    obtain ⟨m'',g'',run',acts',lessen'⟩ := ih acts.good ((acts.aside.roots _).mpr isRoot) (vaddr+4096) (by omega) (by omega)
    have next : (vaddr+4096)/4096 = vaddr/4096+1 := by omega
    rw [pageOf_low (by omega)] at lessen
    refine ⟨m'',g'',?_,?_,?_⟩
    · rw [run_seq run]
      exact run'
    · rw [acts.pages,pageOf_low (by omega),next,unmap_unmap _ _ _ _ (by omega) (by omega)] at acts'
      exact acts.trans acts'
    · intro flags g0 _ user grown
      rw [next] at lessen'
      exact lessen' (by omega) user (lessen (by omega) user grown)

/-! ### Mapping new frames -/

/-- One frame `f` was taken and nobody owns it yet. -/
structure Held (exact : Bool) (base f : Nat) (m : Mm) (g : Ledger) : Prop where
  mirrors : Mirrors base 2 m g
  sound : Sound exact nothing base g
  temp : g.own f = .temp
  only : ∀ x, g.own x = .temp → x = f
  aligned : f%4096 = 0
  bound : f < 2^56

theorem take_keeps {f : Nat} (unused : g.own f = .free ∨ g.own f = .none) {x : Nat} {o : Owner} (used : o ≠ .free)
    (held : o ≠ .none) (owned : o ≠ .temp) : (g.take f).own x = o ↔ g.own x = o := by
  by_cases same : x = f
  · subst same
    rw [take_own_self]
    exact ⟨fun h => absurd h.symm owned,fun h => absurd rfl (unused_ne unused h used held)⟩
  · rw [take_own_other same]

/-- `alloc_frame` takes a frame that no process sees. -/
theorem take_frame (good : Good exact base m g) :
    (room g = 0 ∧ alloc_frame.run m = .ok none m) ∨
    ∃ f m', alloc_frame.run m = .ok (some f) m' ∧ m'.mem = m.mem ∧ (g.own f = .free ∨ g.own f = .none) ∧ f < RAM_END ∧
      Held exact base f m' (g.take f) ∧ (∀ q, Aside q m m' g (g.take f)) ∧ room (g.take f)+1 = room g := by
  rcases good.mirrors.alloc with full | ⟨f,m',run,mem,unused,aligned,_,high,after,less⟩
  · exact .inl full
  right
  have bound : f < 2^56 := by
    have : RAM_END = 0x88000000 := rfl
    omega
  refine ⟨f,m',run,mem,unused,high,⟨after,good.sound.take unused,take_own_self,?_,aligned,bound⟩,?_,less⟩
  · intro x here
    by_contra other
    rw [take_own_other other] at here
    exact good.settled x here
  · intro q
    have same : Confined (fun _ => False) m.mem m'.mem := by
      intro a _
      rw [mem]
    refine aside_of good.mirrors same (fun p h => h.elim) (fun x => take_keeps unused (by simp) (by simp) (by simp))
      (fun x b => take_keeps unused (by simp) (by simp) (by simp))
      (fun x => take_keeps unused (by simp) (by simp) (by simp)) (fun _ _ _ => rfl) (fun _ _ _ _ => rfl) ?_
    simp only [Ledger.take]
    split <;> omega

/-- The taken frame is written. -/
theorem Held.write {f : Nat} (held : Held exact base f m g) {mem : Mem} (change : Confined (· = f) m.mem mem) :
    Held exact base f { m with mem := mem } g ∧ ∀ q, Aside q m { m with mem := mem } g g := by
  refine ⟨{ held with mirrors := held.mirrors.frame change ?_ },?_⟩
  · rintro p rfl
    rw [held.temp]
    exact ⟨by simp,rfl⟩
  · intro q
    refine aside_of held.mirrors change ?_ (fun _ => .rfl) (fun _ _ => .rfl) (fun _ => .rfl) (fun _ _ _ => rfl)
      (fun _ _ _ _ => rfl) (le_refl _)
    rintro p rfl
    exact private_of held.sound (by rw [held.temp]; simp) (by rw [held.temp]; simp) (by rw [held.temp]; simp)

theorem grows_keeps {n : Nat} {g' : Ledger} (grows : Grows r n g g') {x : Nat} {o : Owner} (used : o ≠ .free)
    (held : o ≠ .none) (plain : o.structural = true → o = .root ∨ o = .kernel) : g'.own x = o ↔ g.own x = o := by
  rcases grows.own x with same | ⟨unused,made,_⟩
  · rw [same]
  constructor
  · intro here
    rcases made with ⟨v,table⟩ | ⟨i,table⟩ <;>
    · rw [table] at here
      subst here
      rcases plain rfl with h | h <;> cases h
  · intro here
    rw [here] at unused
    rcases unused with h | h
    · exact absurd h used
    · exact absurd h held

/-- Making tables is seen by no process. -/
theorem walked_aside {owed : Nat → Nat} {n : Nat} {m' : Mm} {g' : Ledger} (mirrors : Mirrors base 2 m g)
    (sound : Sound exact owed base g) (walked : Walked base 2 r n m m' g g') (low : n < 2^19) (q : Nat) :
    Aside q m m' g g' := by
  refine aside_of mirrors walked.change ?_ (fun x => grows_keeps walked.grows (by simp) (by simp) (by simp))
    (fun x b => grows_keeps walked.grows (by simp) (by simp) (by simp [Owner.structural]))
    (fun x => grows_keeps walked.grows (by simp) (by simp) (by simp))
    (fun k n _ => by rw [walked.grows.leaf]) ?_ walked.grows.next
  · rintro p (h | h | ⟨h,own_half⟩)
    · exact private_of sound (by rw [h]; simp) (by rw [h]; simp) (by rw [h]; simp)
    · exact private_of sound (by rw [h]; simp) (by rw [h]; simp) (by rw [h]; simp)
    · exact private_of sound (by intro b here; rw [here] at h; cases h) own_half (by intro here; rw [here] at h; cases h)
  · intro k v _ high
    by_cases mine : k = r
    · rw [mine,walked.grows.away v (by omega)]
    · rw [walked.grows.others k mine]

/-- A new entry for a user page. -/
theorem new_leaf_user {f : Nat} (bound : f < 2^56) {readable writable executable : Bool}
    (access : readable = true ∨ executable = true) (sane : writable = true → readable = true) :
    is_valid (new_leaf f (PTEFlags.new readable writable executable true)) = true ∧
    is_u (new_leaf f (PTEFlags.new readable writable executable true)) = true ∧
    is_r (new_leaf f (PTEFlags.new readable writable executable true)) = readable ∧
    is_w (new_leaf f (PTEFlags.new readable writable executable true)) = writable ∧
    is_x (new_leaf f (PTEFlags.new readable writable executable true)) = executable ∧
    is_cow (new_leaf f (PTEFlags.new readable writable executable true)) = false ∧
    Shape (new_leaf f (PTEFlags.new readable writable executable true)) := by
  obtain ⟨b0,b1,b2,b3,b4⟩ := PTEFlags.new_bits readable writable executable true
  have low : ∀ {i}, i < 10 → (new_leaf f (PTEFlags.new readable writable executable true)).getLsbD i =
      (PTEFlags.new readable writable executable true).getLsbD i := fun inside => getLsbD_new_leaf_low _ _ inside
  have high : ∀ {i}, 54 ≤ i → (new_leaf f (PTEFlags.new readable writable executable true)).getLsbD i = false :=
    fun above => getLsbD_new_leaf_high _ bound above
  have r : is_r (new_leaf f (PTEFlags.new readable writable executable true)) = readable := by
    rw [is_r_eq,low (by omega)]; exact b1
  have w : is_w (new_leaf f (PTEFlags.new readable writable executable true)) = writable := by
    rw [is_w_eq,low (by omega)]; exact b2
  have x : is_x (new_leaf f (PTEFlags.new readable writable executable true)) = executable := by
    rw [is_x_eq,low (by omega)]; exact b3
  have cow : is_cow (new_leaf f (PTEFlags.new readable writable executable true)) = false := by
    rw [is_cow_eq,high (by omega)]
  refine ⟨?_,?_,r,w,x,cow,?_,?_,?_,?_,fun i above _ => high above⟩
  · rw [is_valid_eq,low (by omega)]; exact b0
  · rw [is_u_eq,low (by omega)]; exact b4
  · rw [r,x]; exact access
  · rw [r,w]; exact sane
  · rw [cow]
    intro impossible
    cases impossible
  · intro i above below
    rw [low below]
    exact PTEFlags.new_high _ _ _ _ above

theorem userFlags_new (readable writable executable : Bool) : UserFlags (PTEFlags.new readable writable executable true) := by
  intro f
  obtain ⟨b0,_,_,_,b4⟩ := PTEFlags.new_bits readable writable executable true
  rw [is_valid_eq,is_u_eq,getLsbD_new_leaf_low _ _ (by omega),getLsbD_new_leaf_low _ _ (by omega)]
  exact ⟨b0,b4⟩

/-- The leaf of a page that was not mapped gets the taken frame. -/
theorem map_held {f n entry : Nat} (held : Held exact base f m g) (isRoot : g.own r = .root) (low : n < 2^19)
    (empty : ∀ d, ¬ UserLeaf g r n d) (slot : leafSlot (g.tree r) n = some entry) {readable writable executable : Bool}
    (access : readable = true ∨ executable = true) (sane : writable = true → readable = true) :
    Acts exact base r m
      { m with mem := store64 m.mem entry (new_leaf f (PTEFlags.new readable writable executable true)) } g
      ((setLeaf g r n (new_leaf f (PTEFlags.new readable writable executable true))).give f .user)
      (fillPages n (n+1) ⟨readable,writable,executable,fun o => m.mem (f+o)⟩ (space m g r)) := by
  obtain ⟨valid,user,isR,isW,isX,isCow,shape⟩ := new_leaf_user held.bound access sane
  have names := ppn_new_leaf (PTEFlags.new readable writable executable true) held.aligned held.bound
  obtain ⟨written,b,owner,change⟩ := write_leaf held.mirrors isRoot (by omega) (by omega) slot
    (new_leaf f (PTEFlags.new readable writable executable true))
  have started : base+4096 ≤ g.next := by
    have owned := (held.mirrors.pool.owned f).mp (by rw [held.temp]; simp)
    have := held.mirrors.pool.next_aligned
    have := held.mirrors.pool.base_aligned
    omega
  have sound := held.sound.map held.temp rfl started isRoot low empty valid user names shape
  have owns : ∀ {x}, x ≠ f → (g.give f .user).own x = g.own x := fun other => by simp [Ledger.give,Function.update_of_ne other]
  have keeps : ∀ {x : Nat} {o : Owner}, o ≠ .temp → o ≠ .user → ((g.give f .user).own x = o ↔ g.own x = o) := by
    intro x o owned plain
    by_cases same : x = f
    · subst same
      rw [held.temp]
      simp only [Ledger.give,Function.update_self]
      exact ⟨fun h => absurd h.symm plain,fun h => absurd h.symm owned⟩
    · rw [owns same]
  have leaves : ∀ {q k}, ¬ (q = r ∧ k = n) →
      (((setLeaf g r n (new_leaf f (PTEFlags.new readable writable executable true))).give f .user).tree q).leaf k =
        (g.tree q).leaf k := by
    intro q k other
    rw [give_tree,leaf_setLeaf_other _ _ other]
  refine ⟨⟨written.give (by rw [setLeaf_own,held.temp]; simp) (by rw [setLeaf_own,held.temp]; simp)
    (by rw [setLeaf_own,held.temp]; rfl) (by simp) (by simp) rfl,sound,?_⟩,?_,?_⟩
  · intro x here
    by_cases same : x = f
    · subst same
      simp [Ledger.give] at here
    · exact same (held.only x ((owns same).symm.trans here))
  · refine aside_of held.mirrors change ?_ (fun x => keeps (by simp) (by simp)) (fun x s => keeps (by simp) (by simp))
      (fun x => keeps (by simp) (by simp)) ?_ ?_ (le_refl _)
    · rintro p rfl
      exact private_of held.sound (by rw [owner]; simp) (by rw [owner]; simp) (by rw [owner]; simp)
    · intro q k other
      exact leaves (by rintro ⟨rfl,rfl⟩; exact other ⟨rfl,low⟩)
    · intro q v _ _
      rw [give_tree,(setLeaf_tables _ _ _ _).1]
  · funext k
    by_cases here : k = n
    · subst here
      have bytes : ∀ o : Fin 4096,
          store64 m.mem entry (new_leaf f (PTEFlags.new readable writable executable true)) (f+o) = m.mem (f+o) := by
        intro o
        refine change.byte held.aligned o.isLt ?_
        rintro rfl
        rw [held.temp] at owner
        cases owner
      rw [space_low low,give_tree,leaf_setLeaf_self,pageAt_user valid user,fillPages,if_pos (by omega)]
      simp [isR,isW,isX,isCow,names,bytes]
    · rw [fillPages,if_neg (by omega)]
      refine space_same isRoot (leaves fun both => here both.2) change ?_
      rintro d leaf rfl
      have := held.sound.user leaf
      rw [owner] at this
      cases this

/-- `map` with a taken frame: the page is there, or no table could be made for it. -/
theorem map_user {f n vaddr : Nat} (held : Held exact base f m g) (from_pool : pt.frame_alloc = alloc_frame)
    (isRoot : g.own pt.root = .root) (page : pageOf vaddr = n) (low : n < 2^19) (empty : ∀ d, ¬ UserLeaf g pt.root n d)
    (readable writable executable : Bool) (access : readable = true ∨ executable = true)
    (sane : writable = true → readable = true) :
    ∃ res m' g', (pt.map vaddr f (PTEFlags.new readable writable executable true)).run m = .ok res m' ∧
      (∀ S : Set Nat, n ∈ S → room g'+missing g pt.root S = room g+missing g' pt.root S) ∧ Spends g g' ∧
      (∃ g1, Grows pt.root n g g1 ∧
        g' = if res then (setLeaf g1 pt.root n (new_leaf f (PTEFlags.new readable writable executable true))).give f .user
          else g1) ∧
      match res with
      | true => Acts exact base pt.root m m' g g'
          (fillPages n (n+1) ⟨readable,writable,executable,fun o => m.mem (f+o)⟩ (space m g pt.root))
      | false => room g' = 0 ∧ Held exact base f m' g' ∧ ∀ q, Aside q m m' g g' := by
  obtain ⟨res,m1,g1,run,walked,result⟩ := held.mirrors.walk pt rfl from_pool isRoot page (by omega)
  have aside := walked_aside held.mirrors held.sound walked low
  have keeps : ∀ x, g1.own x = .temp ↔ g.own x = .temp :=
    fun x => grows_keeps walked.grows (by simp) (by simp) (by simp [Owner.structural])
  have held1 : Held exact base f m1 g1 :=
    ⟨walked.mirrors,held.sound.grow walked.grows,(keeps f).mpr held.temp,fun x here => held.only x ((keeps x).mp here),
      held.aligned,held.bound⟩
  unfold PageTable.map PageTable.map_leaf
  rw [run_seq run]
  cases res with
  | none => exact ⟨false,m1,g1,rfl,walked.grows.paid,walked.grows.spends,⟨g1,walked.grows,rfl⟩,result.1,held1,aside⟩
  | some entry =>
    obtain ⟨b,table,rfl⟩ := result
    have slot : leafSlot (g1.tree pt.root) n = some (entry_at b (n%512)) := by simp [leafSlot,table]
    have isRoot1 := ((aside pt.root).roots _).mpr isRoot
    have empty1 : ∀ d, ¬ UserLeaf g1 pt.root n d := by
      intro d leaf
      refine empty d ⟨isRoot,leaf.inside,?_,leaf.valid,leaf.user⟩
      rw [← walked.grows.leaf]
      exact leaf.entry
    have acts := map_held held1 isRoot1 low empty1 slot access sane
    have bytes : ∀ o : Fin 4096, m1.mem (f+o) = m.mem (f+o) := by
      intro o
      refine walked.change.byte held.aligned o.isLt ?_
      rintro (h | h | ⟨h,_⟩) <;> rw [held.temp] at h <;> cases h
    refine ⟨true,_,(setLeaf g1 pt.root n (new_leaf f (PTEFlags.new readable writable executable true))).give f .user,?_,?_,?_,
      ⟨g1,walked.grows,rfl⟩,acts.good,(aside pt.root).trans acts.aside,?_⟩
    · dsimp only
      rw [run_seq (run_write _ _ _)]
      rfl
    · intro S wanted
      have same : ∀ e, missing ((setLeaf g1 pt.root n e).give f .user) pt.root S = missing g1 pt.root S := fun e =>
        missing_congr (by rw [give_tree,(setLeaf_tables _ _ _ _).1]) (by rw [give_tree,(setLeaf_tables _ _ _ _).2])
      rw [same]
      exact walked.grows.paid S wanted
    · exact walked.grows.spends
    · rw [acts.pages,space_unseen aside isRoot]
      simp only [bytes]

/-- A taken frame goes back to the free list. -/
theorem Held.release {f : Nat} (held : Held exact base f m g) :
    ∃ m', (free_frame f).run m = .ok ⟨⟩ m' ∧ Good exact base m' (g.release f) ∧ ∀ q, Aside q m m' g (g.release f) := by
  obtain ⟨m',run,mem,after⟩ := held.mirrors.release (f := f) (by rw [held.temp]; simp) (by rw [held.temp]; simp)
    (by rw [held.temp]; rfl)
  have change : Confined (· = f) m.mem m'.mem := by
    rw [mem]
    exact confined_store64 m.mem (p := f) (o := 0) _ held.aligned (by omega)
  have keeps : ∀ {x : Nat} {o : Owner}, o ≠ .temp → o ≠ .free → ((g.release f).own x = o ↔ g.own x = o) := by
    intro x o owned used
    by_cases same : x = f
    · subst same
      rw [held.temp]
      simp only [Ledger.release,Function.update_self]
      exact ⟨fun h => absurd h.symm used,fun h => absurd h.symm owned⟩
    · simp [Ledger.release,Function.update_of_ne same]
  refine ⟨m',run,⟨after,held.sound.release (by rw [held.temp]; simp) (by rw [held.temp]; simp),?_⟩,?_⟩
  · intro x here
    by_cases same : x = f
    · subst same
      simp [Ledger.release] at here
    · simp only [Ledger.release,Function.update_of_ne same] at here
      exact same (held.only x here)
  · intro q
    refine aside_of held.mirrors change ?_ (fun x => keeps (by simp) (by simp)) (fun x s => keeps (by simp) (by simp))
      (fun x => keeps (by simp) (by simp)) (fun _ _ _ => rfl) (fun _ _ _ _ => rfl) (le_refl _)
    rintro p rfl
    exact private_of held.sound (by rw [held.temp]; simp) (by rw [held.temp]; simp) (by rw [held.temp]; simp)

theorem run_is_mapped (good : Good exact base m g) (isRoot : g.own pt.root = .root) (va : Nat) :
    (is_mapped pt va).run m = .ok (is_valid ((g.tree pt.root).leaf (pageOf va))) m := by
  unfold is_mapped
  rw [run_seq (good.lookup pt isRoot va)]
  cases slot : leafSlot (g.tree pt.root) (pageOf va) with
  | none =>
    rw [leaf_no_slot good.mirrors isRoot (pageOf_lt va) slot]
    rfl
  | some entry =>
    dsimp only
    rw [run_seq (run_read _ _),load_slot good.mirrors isRoot (pageOf_lt va) slot]
    rfl

theorem unmap_fillPages {lo hi : Nat} {p : Page} {s : Pages} (absent : ∀ n, lo ≤ n → n < hi → s n = none) :
    unmap lo hi (fillPages lo hi p s) = s := by
  funext n
  simp only [unmap,fillPages]
  split_ifs with inside
  · exact (absent n inside.1 inside.2).symm
  · rfl

theorem fillPages_fillPages (lo mid hi : Nat) (p : Page) (s : Pages) (first : lo ≤ mid) (second : mid ≤ hi) :
    fillPages mid hi p (fillPages lo mid p s) = fillPages lo hi p s := by
  funext n
  simp only [fillPages]
  split_ifs <;> first | rfl | omega

/-- The rollback: the pages that were mapped so far are unmapped again. -/
theorem rollback (good : Good exact base m g) (isRoot : g.own pt.root = .root) {start vaddr : Nat} {p : Page} {s : Pages}
    (start_aligned : start%4096 = 0) (aligned : vaddr%4096 = 0) (low : vaddr ≤ 2^39)
    (now : space m g pt.root = fillPages (start/4096) (vaddr/4096) p s)
    (absent : ∀ n, start/4096 ≤ n → n < vaddr/4096 → s n = none) {flags : PTEFlags} (user : UserFlags flags) {g0 : Ledger}
    (order : start ≤ vaddr) (grown : Grown pt.root (start/4096) (vaddr/4096) flags g0 g) :
    ∃ m' g', (unmap_user_pages pt start vaddr).run m = .ok ⟨⟩ m' ∧ Acts exact base pt.root m m' g g' s ∧
      Grown pt.root (start/4096) (start/4096) flags g0 g' := by
  obtain ⟨m',g',run,acts,lessen⟩ := unmap_user_pages_spec pt good isRoot _ _ start_aligned aligned low
  rw [now,unmap_fillPages absent] at acts
  exact ⟨m',g',run,acts,(lessen order user grown).empty _⟩

/-- The frames that new pages of a range cost with their tables. They were taken, or a page of the range was mapped
    already, or there are not more than these. -/
def Charged (r lo hi : Nat) (g g' : Ledger) : Bool → Prop
  | true => Spends g g' ∧ ∀ S : Set Nat, (∀ n, lo ≤ n → n < hi → n ∈ S) → room g'+(hi-lo)+missing g r S = room g+missing g' r S
  | false => (∃ n, lo ≤ n ∧ n < hi ∧ is_valid ((g.tree r).leaf n) = true) ∨
      ∀ S : Set Nat, (∀ n, lo ≤ n → n < hi → n ∈ S) → room g ≤ (hi-lo)+missing g r S

theorem Charged.refl (r n : Nat) (g : Ledger) : Charged r n n g g true := by
  refine ⟨Spends.refl g,fun S _ => ?_⟩
  omega

/-- One page more at the front of a range. -/
theorem Charged.more {r lo hi : Nat} {a b c : Ledger} {res : Bool} (order : lo < hi) (spends : Spends a b)
    (paid : ∀ S : Set Nat, lo ∈ S → room b+1+missing a r S = room a+missing b r S)
    (leaves : ∀ n, n ≠ lo → (b.tree r).leaf n = (a.tree r).leaf n) (rest : Charged r (lo+1) hi b c res) :
    Charged r lo hi a c res := by
  have front : ∀ {S : Set Nat}, (∀ n, lo ≤ n → n < hi → n ∈ S) → lo ∈ S := fun all => all lo (le_refl _) order
  cases res with
  | true =>
    refine ⟨spends.trans rest.1,fun S all => ?_⟩
    have first := paid S (front all)
    have second := rest.2 S fun n low high => all n (by omega) high
    omega
  | false =>
    rcases rest with ⟨n,low,high,valid⟩ | short
    · refine .inl ⟨n,by omega,high,?_⟩
      rw [← leaves n (by omega)]
      exact valid
    · refine .inr fun S all => ?_
      have first := paid S (front all)
      have second := short S fun n low high => all n (by omega) high
      omega

theorem map_zeroed_from_spec {readable writable executable : Bool} (from_pool : pt.frame_alloc = alloc_frame)
    (access : readable = true ∨ executable = true) (sane : writable = true → readable = true) {start stop vaddr : Nat}
    (start_aligned : start%4096 = 0) (stop_aligned : stop%4096 = 0) (aligned : vaddr%4096 = 0) (order : vaddr ≤ stop)
    (begun : start ≤ vaddr) (low : stop ≤ 2^31) {s : Pages} (good : Good exact base m g) (isRoot : g.own pt.root = .root)
    (now : space m g pt.root = fillPages (start/4096) (vaddr/4096) (Page.zero readable writable executable) s)
    (absent : ∀ n, start/4096 ≤ n → n < vaddr/4096 → s n = none) {g0 : Ledger}
    (grown : Grown pt.root (start/4096) (vaddr/4096) (PTEFlags.new readable writable executable true) g0 g) :
    ∃ res m' g', (map_zeroed_from pt start stop (PTEFlags.new readable writable executable true) vaddr).run m = .ok res m' ∧
      Acts exact base pt.root m m' g g'
        (if res then fillPages (start/4096) (stop/4096) (Page.zero readable writable executable) s else s) ∧
      (res = true → ∀ n, start/4096 ≤ n → n < stop/4096 → s n = none) ∧
      Grown pt.root (start/4096) (if res then stop/4096 else start/4096)
        (PTEFlags.new readable writable executable true) g0 g' ∧
      Charged pt.root (vaddr/4096) (stop/4096) g g' res := by
  have user := userFlags_new readable writable executable
  induction left : (stop-vaddr)/4096 generalizing vaddr m g with
  | zero =>
    have final : vaddr = stop := by omega
    subst final
    refine ⟨true,m,g,?_,?_,fun _ => absent,grown,Charged.refl _ _ _⟩
    · unfold map_zeroed_from
      rw [dif_neg (by omega)]
      rfl
    · rw [if_pos rfl,← now]
      exact Acts.refl good
  | succ rest ih =>
    have page : pageOf vaddr = vaddr/4096 := pageOf_low (by omega)
    have small : vaddr/4096 < 2^19 := by omega
    unfold map_zeroed_from
    rw [dif_pos (by omega),run_seq (run_is_mapped pt good isRoot vaddr),page]
    by_cases mapped : is_valid ((g.tree pt.root).leaf (vaddr/4096)) = true
    · rw [if_pos mapped]
      obtain ⟨m',g',run,acts,same⟩ := rollback pt good isRoot start_aligned aligned (by omega) now absent user begun grown
      exact ⟨false,m',g',by rw [run_seq run]; rfl,acts,by simp,same,.inl ⟨vaddr/4096,le_refl _,by omega,mapped⟩⟩
    rw [if_neg mapped]
    have here : s (vaddr/4096) = none := by
      have none : space m g pt.root (vaddr/4096) = none := by
        cases found : space m g pt.root (vaddr/4096) with
        | none => rfl
        | some p => exact absurd (space_leaf isRoot found).2.valid mapped
      rwa [now,fillPages,if_neg (by omega)] at none
    have bare : (g.tree pt.root).leaf (vaddr/4096) = 0 := by
      rcases good.sound.plain _ _ isRoot small (fun both => mapped both.1) with zero | ⟨_,device⟩
      · exact zero
      · rw [device] at mapped
        exact absurd (by decide) mapped
    rcases take_frame good with ⟨full,run⟩ | ⟨f,m1,run,_,unused,bound,held,aside,less⟩
    · rw [run_seq run]
      obtain ⟨m',g',run',acts,same⟩ := rollback pt good isRoot start_aligned aligned (by omega) now absent user begun grown
      exact ⟨false,m',g',by dsimp only; rw [run_seq run']; rfl,acts,by simp,same,.inr fun S _ => by omega⟩
    have spent := spends_take good.mirrors.pool run held.mirrors.pool
    rw [run_seq run]
    dsimp only
    rw [run_seq (run_write_bytes _ _ _ _)]
    obtain ⟨held2,aside2⟩ := held.write (confined_fill m1.mem (p := f) 0 held.aligned)
    have unseen : ∀ q, Aside q m { m1 with mem := fill m1.mem f 0 4096 } g (g.take f) := fun q => (aside q).trans (aside2 q)
    have isRoot2 := ((unseen 0).roots _).mpr isRoot
    have empty : ∀ d, ¬ UserLeaf (g.take f) pt.root (vaddr/4096) d := by
      intro d leaf
      have same : (g.tree pt.root).leaf (vaddr/4096) = d := leaf.entry
      rw [same] at mapped
      exact mapped leaf.valid
    obtain ⟨res,m3,g3,runMap,paid,spends,⟨g2,grows,final⟩,result⟩ :=
      map_user pt held2 from_pool isRoot2 page small empty _ _ _ access sane
    rw [run_seq runMap]
    have taken : ∀ S : Set Nat, missing (g.take f) pt.root S = missing g pt.root S := fun _ => rfl
    have cost : ∀ S : Set Nat, vaddr/4096 ∈ S → room g3+1+missing g pt.root S = room g+missing g3 pt.root S := by
      intro S wanted
      have := paid S wanted
      rw [taken] at this
      omega
    cases res with
    | false =>
      obtain ⟨full,held3,aside3⟩ := result
      obtain ⟨m4,runFree,good4,aside4⟩ := held3.release
      have unseen4 : ∀ q, Aside q m m4 g (g3.release f) := fun q => ((unseen q).trans (aside3 q)).trans (aside4 q)
      have back : Grown pt.root (start/4096) (vaddr/4096) (PTEFlags.new readable writable executable true) g0
          (g3.release f) := by
        rw [show g3 = g2 from final]
        exact grown.back unused grows
      obtain ⟨m5,g5,runUnmap,acts,same⟩ := rollback pt good4 (((unseen4 0).roots _).mpr isRoot) start_aligned aligned
        (by omega) (by rw [space_unseen unseen4 isRoot]; exact now) absent user begun back
      refine ⟨false,m5,g5,?_,⟨acts.good,(unseen4 _).trans acts.aside,acts.pages⟩,by simp,same,.inr fun S all => ?_⟩
      swap
      · have := cost S (all _ (le_refl _) (by omega))
        omega
      rw [if_neg (by simp),run_seq runFree,run_seq runUnmap]
      rfl
    | true =>
      have acts : Acts exact base pt.root _ m3 _ g3 _ := result
      have zeros : (⟨readable,writable,executable,fun o => fill m1.mem f 0 4096 (f+o)⟩ : Page) =
          Page.zero readable writable executable := by
        simp only [Page.zero,Page.mk.injEq,true_and]
        funext o
        exact fill_on (by omega) (by omega)
      have next : (vaddr+4096)/4096 = vaddr/4096+1 := by omega
      have now3 : space m3 g3 pt.root =
          fillPages (start/4096) ((vaddr+4096)/4096) (Page.zero readable writable executable) s := by
        rw [acts.pages,zeros,space_unseen unseen isRoot,now,next,fillPages_fillPages _ _ _ _ _ (by omega) (by omega)]
      have absent3 : ∀ n, start/4096 ≤ n → n < (vaddr+4096)/4096 → s n = none := by
        intro n lo hi
        by_cases before : n < vaddr/4096
        · exact absent n lo before
        · have : n = vaddr/4096 := by omega
          rw [this]
          exact here
      have more : Grown pt.root (start/4096) ((vaddr+4096)/4096) (PTEFlags.new readable writable executable true) g0 g3 := by
        rw [next,show g3 = _ from final]
        exact grown.more (by omega) unused ⟨held.aligned,bound⟩ grows bare
      obtain ⟨res,m4,g4,run4,acts4,was,all,charged⟩ := ih (show (vaddr+4096)%4096 = 0 by omega) (by omega) (by omega) acts.good
        ((acts.aside.roots _).mpr isRoot2) now3 absent3 more (by omega)
      rw [next] at charged
      have leaves : ∀ n, n ≠ vaddr/4096 → (g3.tree pt.root).leaf n = (g.tree pt.root).leaf n := by
        intro n other
        rw [show g3 = _ from final,if_pos rfl,give_tree,leaf_setLeaf_other _ _ (fun both => other both.2),grows.leaf]
        rfl
      refine ⟨res,m4,g4,?_,⟨acts4.good,((unseen _).trans acts.aside).trans acts4.aside,acts4.pages⟩,was,all,
        Charged.more (by omega) (spent.trans spends) cost leaves charged⟩
      rw [if_pos rfl]
      exact run4

/-- `map_zeroed_user_pages` gives zeroed pages for a range that had none, or changes
    nothing. -/
theorem map_zeroed_user_pages_spec (readable writable executable : Bool) (good : Good exact base m g)
    (from_pool : pt.frame_alloc = alloc_frame) (isRoot : g.own pt.root = .root)
    (access : readable = true ∨ executable = true) (sane : writable = true → readable = true) (start stop : Nat)
    (aligned : start%4096 = 0) (stop_aligned : stop%4096 = 0) (order : start ≤ stop) (low : stop ≤ 2^31) :
    ∃ res m' g', (map_zeroed_user_pages pt start stop (PTEFlags.new readable writable executable true)).run m = .ok res m' ∧
      Acts exact base pt.root m m' g g'
        (if res then fillPages (start/4096) (stop/4096) (Page.zero readable writable executable) (space m g pt.root)
          else space m g pt.root) ∧
      (res = true → ∀ n, start/4096 ≤ n → n < stop/4096 → space m g pt.root n = none) ∧
      Grown pt.root (start/4096) (if res then stop/4096 else start/4096)
        (PTEFlags.new readable writable executable true) g g' ∧ Charged pt.root (start/4096) (stop/4096) g g' res := by
  refine map_zeroed_from_spec pt from_pool access sane aligned stop_aligned aligned order (le_refl _) low good isRoot ?_ ?_
    (Grown.refl _ _ _ _)
  · funext n
    rw [fillPages,if_neg (by omega)]
  · intro n h h'
    omega

end

end Unit00.Ranges
