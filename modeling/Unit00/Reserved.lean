import Unit00.Exits

/-!
Copy-on-write and the hart. The kernel marks a copy-on-write page with bit 62 of
its entry, which is reserved: a hart that enforces this faults on every access to
the page, loads and fetches included. So after a fork the pages that could be read
still can be read exactly when none of them was writable or marked before, and the
child has all its tables.
-/
namespace Unit00.Reserved
open Unit00.Memory Unit00.Execution Unit00.Frame Unit00.Paging Unit00.Paging.PTEntry Unit00.Trees Unit00.Ownership
open Unit00.Mirror Unit00.Space Unit00.Pages Unit00.Growing Unit00.Ranges Unit00.Clearing Unit00.Forking Unit00.Access Unit00.Mmu
open Unit00.Task Unit00.Scheduler Unit00.Syscall Unit00.Machine Unit00.Lifecycle Unit00.Steps Unit00.Invariant
open Unit00.Services Unit00.Traps Unit00.View Unit00.Boot Unit00.Runs Unit00.Isolation Unit00.Progress Unit00.Stages Unit00.Deaths
open Unit00.Boundary Unit00.Exhaustion Unit00.Exits

/-! ### What a fork promises -/

/-- The walk of a page table lets a user program make the access. -/
def Walks (k : Kernel) (pt : PageTable) (access : Access) (va : Nat) : Prop :=
  (translate { k.hart with satp := pt.satp_val } k.mm.mem .user access va).isSome

/-- What could be loaded or fetched from the parent before a fork can be after it, from the parent and from the child. -/
structure StillReads (k k' : Kernel) (parent child : PageTable) : Prop where
  loads : ∀ va e, canonical va = true → userLeaf k.mm parent va = some e → is_r e = true →
    Walks k' parent .load va ∧ Walks k' child .load va
  fetches : ∀ va e, canonical va = true → userLeaf k.mm parent va = some e → is_x e = true →
    Walks k' parent .fetch va ∧ Walks k' child .fetch va
  survives : ∀ ctx (va : BitVec 64) e, canonical va.toNat = true → userLeaf k.mm parent va.toNat = some e → is_r e = true →
    step ⟨ctx,.load va⟩ k' = .user k'

/-- No user page is writable or copy-on-write, and there are frames for the child and the tables of its user pages. -/
def PlainFork (m : Mm) (pt : PageTable) : Prop :=
  ForkFits m pt ∧ ∀ va e, userLeaf m pt va = some e → is_w e = false ∧ is_cow e = false

/-! ### Walks on a strict hart -/

section
variable {exact : Bool} {base : Nat} {k : Kernel} {g : Ledger} (good : Good exact base k.mm g) (pt : PageTable)
  (isRoot : g.own pt.root = .root)

include good isRoot

theorem at_root : root_of ({ k.hart with satp := pt.satp_val } : Hart).satp = pt.root := by
  have low := good.sound.roots _ isRoot
  have ram : RAM_END = 0x88000000 := rfl
  exact root_of_satp (good.mirrors.tables.aligned _ isRoot) (by omega)

/-- A strict hart walks to a user page exactly when it is not marked. -/
theorem walks_iff (strict : k.hart.reserved_fault = true) {access : Access} {va : Nat} (fits : canonical va = true) :
    Walks k pt access va ↔ ∃ e, UserLeaf g pt.root (pageOf va) e ∧ permits .user access e = true ∧ is_cow e = false := by
  unfold Walks
  constructor
  · intro found
    obtain ⟨pa,done⟩ := Option.isSome_iff_exists.mp found
    obtain ⟨e,leaf,permitted,plain,_⟩ := translate_user good isRoot (at_root good pt isRoot) done
    have strict' : ({ k.hart with satp := pt.satp_val } : Hart).reserved_fault = true := strict
    rw [strict',Bool.true_and] at plain
    exact ⟨e,leaf,permitted,plain⟩
  · rintro ⟨e,leaf,permitted,plain⟩
    rw [translate_leaf good (at_root good pt isRoot) leaf,fits,plain,permitted]
    simp

end

/-- Pages of the user half have canonical addresses. -/
theorem canonical_page {n : Nat} (low : n < 2^19) : canonical (n*4096) = true := by
  unfold canonical
  have small : n*4096 < 2^38 := by omega
  rw [Bool.or_eq_true]
  exact .inl (decide_eq_true small)

/-! ### After a fork -/

section
variable {o : Origin} {k k' : Kernel} {g : Ledger} {me : Process} {e : Event}

/-- A fork leaves the hart's rule and the running process in place. -/
theorem fork_keeps (user : InUser false o k g) (running : k.process_list k.current = some me) (awake : me.state = .Running)
    (calls : Calls e SYS_FORK) (run : step e k = .user k') : k'.hart.reserved_fault = k.hart.reserved_fault := by
  have waits : WaitsWell k e := fun other => by
    have both := calls.2.symm.trans other.2
    cases both
  obtain ⟨r,kh,g',next,handled,_,rfl,_,_⟩ := call_handled user running awake calls.1 waits (by simp) run
  have kept : (leaving r (next.kernel_sp-TrapFrame.SIZE) kh).hart.reserved_fault = kh.hart.reserved_fault := by
    unfold leaving trap_exit_restore trap_return
    dsimp only
    split
    · split <;> rfl
    · rfl
  rw [kept]
  unfold callOf at handled
  rw [calls.2] at handled
  cases handled with
  | call _ not_fork _ _ => exact absurd rfl not_fork
  | exit exits => exact absurd exits (by decide)
  | full none => rfl
  | fork _ _ => rfl

/-- The pages of the parent and of the child after a fork. -/
theorem fork_reads (user : InUser false o k g) (running : k.process_list k.current = some me) (awake : me.state = .Running)
    (strict : k.hart.reserved_fault = true) (calls : Calls e SYS_FORK) (run : step e k = .user k') {i : Fin MAX_PROCESSES}
    (free : emptySlot (procs k).slots = some i) :
    ∃ child, k'.process_list i = some child ∧ answer e.ctx 8 0 k = some child.pid ∧
      (StillReads k k' me.page_table child.page_table ↔ PlainFork k.mm me.page_table) := by
  obtain ⟨c,s,mm,g',forked,user',same,table,_,_,result,_⟩ := fork_next user running awake calls (by simp) run free
  have there : me.state ≠ .Gone := by rw [awake]; simp
  have isRoot := user.inv.link.root running there
  have good := user.inv.good
  have good' := user'.inv.good
  have isRoot' : g'.own me.page_table.root = .root := (forked.roots _).mpr (.inl isRoot)
  have isChild : g'.own (forkChild (stopped e.ctx 8 0 me) k.next_pid c s).page_table.root = .root := (forked.roots c).mpr (.inr rfl)
  refine ⟨forkChild (stopped e.ctx 8 0 me) k.next_pid c s,by rw [table]; exact Function.update_self ..,result,?_⟩
  generalize made : (forkChild (stopped e.ctx 8 0 me) k.next_pid c s).page_table = pt at isChild ⊢
  have root_pt : pt.root = c := by rw [← made]; rfl
  have strict' : k'.hart.reserved_fault = true := (fork_keeps user running awake calls run).trans strict
  -- The process that runs is the parent, on its own page table.
  have current : k'.current = k.current := congrArg System.current same
  have other : k.current ≠ i := by
    rintro rfl
    have slot : find_empty_slot k.process_list = some k.current := by
      rw [find_empty_slot_eq]
      exact free
    exact there (find_empty_slot_some slot running)
  have here : k'.process_list k'.current = some (stopped e.ctx 8 0 me) := by
    obtain ⟨_,_,slot,_,_⟩ := entered_inv user running awake e.ctx 8 0
    rw [table,current,Function.update_of_ne other]
    exact slot
  have home : root_of k'.hart.satp = (stopped e.ctx 8 0 me).page_table.root := user'.home _ here
  rw [PlainFork,forkFits_iff good me.page_table isRoot]
  constructor
  · intro still
    have child_there : ∀ n d, UserLeaf g me.page_table.root n d → is_w d = false ∧ is_cow d = false ∧
        (g'.tree c).leaf n = sharedEntry d := by
      intro n d leaf
      have low := good.sound.low leaf
      have found := (userLeaf_page good me.page_table isRoot leaf.inside).mpr leaf
      have plain : ∃ d', UserLeaf g' pt.root (pageOf (n*4096)) d' ∧ is_cow d' = false := by
        rcases (good.sound.shape leaf).access with r | x
        · obtain ⟨d',leaf',_,plain⟩ := (walks_iff good' pt isChild strict' (canonical_page low)).mp
            (still.loads _ d (canonical_page low) found r).2
          exact ⟨d',leaf',plain⟩
        · obtain ⟨d',leaf',_,plain⟩ := (walks_iff good' pt isChild strict' (canonical_page low)).mp
            (still.fetches _ d (canonical_page low) found x).2
          exact ⟨d',leaf',plain⟩
      obtain ⟨d',leaf',plain⟩ := plain
      rw [pageOf_page leaf.inside,root_pt] at leaf'
      have shared : (g'.tree c).leaf n = sharedEntry d := by
        refine (forked.child n d leaf).resolve_right fun missing => ?_
        have valid := leaf'.valid
        rw [← leaf'.entry,missing.1] at valid
        exact absurd valid (by decide)
      rw [← leaf'.entry,shared,sharedEntry_cow,Bool.or_eq_false_iff] at plain
      exact ⟨plain.1,plain.2,shared⟩
    refine ⟨forked.needed fun n d leaf => (child_there n d leaf).2.2,fun va d found => ?_⟩
    have plain := child_there _ d ((userLeaf_iff good _ isRoot).mp found)
    exact ⟨plain.1,plain.2.1⟩
  · rintro ⟨fits,plain⟩
    have both {va : Nat} {d : PTEntry} (found : userLeaf k.mm me.page_table va = some d) :
        UserLeaf g' me.page_table.root (pageOf va) d ∧ UserLeaf g' pt.root (pageOf va) d ∧ is_cow d = false := by
      have leaf := (userLeaf_iff good _ isRoot).mp found
      obtain ⟨w,cow⟩ := plain va d found
      have same : sharedEntry d = d := by
        unfold sharedEntry
        rw [if_neg (by simp [w])]
      have parent := forked.parent _ d leaf
      have child := (forked.child _ d leaf).resolve_right fun missing => missing.2 fits
      rw [same] at parent child
      refine ⟨⟨isRoot',leaf.inside,parent,leaf.valid,leaf.user⟩,⟨isChild,leaf.inside,?_,leaf.valid,leaf.user⟩,cow⟩
      rw [root_pt]
      exact child
    refine ⟨fun va d fits found r => ?_,fun va d fits found x => ?_,fun ctx va d fits found r => ?_⟩
    · obtain ⟨parent,child,cow⟩ := both found
      have may : permits .user .load d = true := by simp [permits,r,parent.user]
      exact ⟨(walks_iff good' _ isRoot' strict' fits).mpr ⟨d,parent,may,cow⟩,
        (walks_iff good' _ isChild strict' fits).mpr ⟨d,child,may,cow⟩⟩
    · obtain ⟨parent,child,cow⟩ := both found
      have may : permits .user .fetch d = true := by simp [permits,x,parent.user]
      exact ⟨(walks_iff good' _ isRoot' strict' fits).mpr ⟨d,parent,may,cow⟩,
        (walks_iff good' _ isChild strict' fits).mpr ⟨d,child,may,cow⟩⟩
    · obtain ⟨parent,_,cow⟩ := both found
      have may : permits .user .load d = true := by simp [permits,r,parent.user]
      unfold step access
      dsimp only
      rw [translate_leaf good' home parent,fits,cow,may]
      simp

end

/-- After a fork on a strict hart what could be read still can be exactly when the parent has no writable or
    copy-on-write page and there are frames for the child. -/
theorem still_reads_iff {cfg : Config} {k k' : Kernel} {me : Process} {e : Event} (reached : Reachable cfg WaitsWell k)
    (running : runner k = some me) (strict : k.hart.reserved_fault = true) (calls : Calls e SYS_FORK)
    (run : step e k = .user k') {i : Fin MAX_PROCESSES} (free : find_empty_slot k.process_list = some i) :
    ∃ child, k'.process_list i = some child ∧ answer e.ctx 8 0 k = some child.pid ∧
      (StillReads k k' me.page_table child.page_table ↔ PlainFork k.mm me.page_table) := by
  obtain ⟨_,_,_,_,g,_,_,user⟩ := reachable_user false (fun k e (may : WaitsWell k e) => ⟨may,by simp⟩) reached
  obtain ⟨me',running',awake⟩ := reachable_awake reached
  rw [runner,running',Option.some.injEq] at running
  subst running
  exact fork_reads user running' awake strict calls run (by rw [← free,find_empty_slot_eq]; rfl)

/-! ### The first fork -/

theorem boot_rule {cfg : Config} {k : Kernel} (booted : boot cfg = .user k) : k.hart.reserved_fault = cfg.reserved_fault := by
  obtain ⟨r,s,m,g,rfl,_⟩ := boot_launch false booted
  rfl

/-- Init forks on a strict hart, with its stack page writable. -/
theorem sample_first_fork : ∃ o k g me k', Reachable (sample true) WaitsWell k ∧ InUser false o k g ∧ runner k = some me ∧
    me.state = .Running ∧ k.hart.reserved_fault = true ∧ step (callEvent 220 []) k = .user k' ∧
    emptySlot (procs k).slots = some 1 ∧ ∃ va d, userLeaf k.mm me.page_table va = some d ∧ (is_w d || is_cow d) = true := by
  obtain ⟨o,k,k',_,g,_,me,_,handover⟩ := sample_handover
  have at0 := handover.at0
  have current : k.current = 0 := congrArg System.current at0.procs
  have running : k.process_list k.current = some me := by
    rw [current]
    exact handover.slot
  have awake : me.state = .Running := by
    obtain ⟨q,slot,same⟩ := @runner_of _ _ ⟨1,0,.Running⟩ at0.procs rfl
    rw [running,Option.some.injEq] at slot
    rw [slot]
    exact congrArg Lifecycle.Header.state same
  have isRoot := me_root at0.user running awake
  obtain ⟨p,page⟩ := Option.isSome_iff_exists.mp ((handover.pages.there (USER_STACK_PAGE/4096)).mpr (.inr rfl))
  obtain ⟨leaf,marks⟩ := space_writable isRoot page (handover.pages.stack p page).2.1
  refine ⟨o,k,g,me,k',(plain_waits at0.run).reachable,at0.user,running,awake,?_,handover.forked,?_,USER_STACK_PAGE/4096*4096,_,
    (userLeaf_page at0.user.inv.good _ isRoot leaf.inside).mpr leaf,marks⟩
  · cases at0.run with
    | boot booted => exact boot_rule booted
  · rw [at0.procs]
    decide +kernel

theorem still_reads_iff_at_first : ∃ k me k' child, runner k = some me ∧ k'.process_list 1 = some child ∧
    (StillReads k k' me.page_table child.page_table ↔ PlainFork k.mm me.page_table) := by
  obtain ⟨o,k,g,me,k',reached,user,running,awake,strict,run,free,_⟩ := sample_first_fork
  obtain ⟨child,slot,_,iff⟩ := still_reads_iff reached running strict (callEvent_calls _ _) run
    (show find_empty_slot k.process_list = some 1 by rw [find_empty_slot_eq]; exact free)
  exact ⟨k,me,k',child,running,slot,iff⟩

/-- After the first fork of init its stack cannot be read any more. -/
theorem stack_unreadable : ∃ k me k' child, Reachable (sample true) WaitsWell k ∧ runner k = some me ∧
    k.hart.reserved_fault = true ∧ step (callEvent 220 []) k = .user k' ∧ k'.process_list 1 = some child ∧
    answer (callEvent 220 []).ctx 8 0 k = some child.pid ∧ ¬ StillReads k k' me.page_table child.page_table := by
  obtain ⟨o,k,g,me,k',reached,user,running,awake,strict,run,free,va,d,found,marks⟩ := sample_first_fork
  obtain ⟨child,slot,result,iff⟩ := fork_reads user running awake strict (callEvent_calls _ _) run free
  refine ⟨k,me,k',child,reached,running,strict,run,slot,result,fun still => ?_⟩
  obtain ⟨w,cow⟩ := (iff.mp still).2 va d found
  rw [w,cow] at marks
  cases marks

end Unit00.Reserved
