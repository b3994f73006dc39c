import Unit00.Exhaustion
import Unit00.Atomic

/-!
The two ways in which a process ends. `sys_exit` drops every user page of the
process before it becomes a zombie, a fatal fault does not; what `sys_wait` frees
later is the same. So the two agree exactly when there is no page to drop.
-/
namespace Unit00.Exits
open Unit00.Memory Unit00.Execution Unit00.Frame Unit00.Paging Unit00.Paging.PTEntry Unit00.Trees Unit00.Ownership
open Unit00.Mirror Unit00.Space Unit00.Pages Unit00.Growing Unit00.Ranges Unit00.Clearing Unit00.Forking Unit00.Access Unit00.Mmu
open Unit00.Task Unit00.Scheduler Unit00.Syscall Unit00.Machine Unit00.Lifecycle Unit00.Steps Unit00.Invariant
open Unit00.Services Unit00.Traps Unit00.View Unit00.Boot Unit00.Runs Unit00.Isolation Unit00.Progress Unit00.Stages Unit00.Deaths
open Unit00.Boundary Unit00.Atomic Unit00.Exhaustion

/-! ### What two endings have in common -/

/-- The same frames are free and counted the same, and the processes other than the one in the slot have the same
    pages. -/
structure SameResources (k : Kernel) (i : Fin MAX_PROCESSES) (t1 t2 : Kernel) : Prop where
  counts : ∀ f, f%4096 = 0 → RAM_BASE ≤ f → f < RAM_END → refsOf t1.mm f = refsOf t2.mm f
  free : ∀ f, f%4096 = 0 → (Available t1.mm f ↔ Available t2.mm f)
  others : ∀ j q, j ≠ i → k.process_list j = some q → q.state ≠ .Gone → ∀ va,
    userLeaf t1.mm q.page_table va = userLeaf t2.mm q.page_table va

/-- Every user leaf that the process had gave up its reference, and the frames that nobody else had are free. -/
def GivesUp (k : Kernel) (me : Process) (t : Kernel) : Prop :=
  ∀ va e, userLeaf k.mm me.page_table va = some e →
    (refsOf t.mm (ppn_to_addr e)).toNat+1 = (refsOf k.mm (ppn_to_addr e)).toNat ∧
    ((refsOf k.mm (ppn_to_addr e)).toNat = 1 → Available t.mm (ppn_to_addr e))

/-- The two endings of the process in a slot leave the same resources. -/
structure SameEnd (k : Kernel) (i : Fin MAX_PROCESSES) (me : Process) (t1 t2 : Kernel) : Prop where
  same : SameResources k i t1 t2
  killed : GivesUp k me t1
  exited : GivesUp k me t2

/-- The event is a page fault that ends the process. -/
def Fatal (k : Kernel) (e : Event) (me : Process) : Prop :=
  ∃ scause stval, trapOf k e = some (scause,stval) ∧ Segfaults (trap_entry e.ctx scause stval k) me scause stval

/-! ### Dying -/

section
variable {o : Origin} {k k' : Kernel} {g g' : Ledger} {me : Process}

/-- The process that died, before the scheduler. -/
theorem ended_slot (sound : Lifecycle.Sound (procs k)) (running : k.process_list k.current = some me)
    (there : me.state ≠ .Gone) (mm : Mm) (output : List (BitVec 8)) (code : Nat) :
    ∃ q, (ended k me mm output code).process_list k.current = some q ∧ Kin me q ∧ q.pid = me.pid ∧ q.state = .Zombie code := by
  obtain ⟨q,slot,kin⟩ := (shuffled_ended running there mm output code).forth running
  refine ⟨q,slot,kin,?_,?_⟩
  · rw [kin.same]
  · have headers : slots (ended k me mm output code).process_list k.current = some { header me with state := .Zombie code } := by
      rw [slots_ended,dieSlots_eq sound (slots_some running)]
      exact if_pos rfl
    rw [slots_some slot,Option.some.injEq] at headers
    exact congrArg Header.state headers

/-- What is left when a process was reaped: the ledger before it, the ledger after it. -/
structure Buried (o : Origin) (k' t : Kernel) (r s : Nat) (g' g'' : Ledger) : Prop where
  good : Good false o.base t.mm g''
  freeing : Freeing false o.base k'.mm (retire g' r) (Belongs g' r s) t.mm g''
  isRoot : g'.own r = .root

/-- A zombie is reaped, whatever it left. -/
theorem reap_buries (user : InUser false o k' g') {i : Fin MAX_PROCESSES} {q : Process} {code : Nat}
    (slot : k'.process_list i = some q) (dead : q.state = .Zombie code) :
    ∃ t g'', (reap 0 i).run k' = .ok q.pid t ∧ Buried o k' t q.page_table.root q.kernel_stack_frame g' g'' := by
  have there : q.state ≠ .Gone := by rw [dead]; simp
  have isRoot := user.inv.link.root slot there
  obtain ⟨mm,g'',freed,good,freeing⟩ := free_user_pt_resources_spec user.inv.good q isRoot
    (user.inv.good.sound.retire_leaky q.page_table.root) (user.inv.link.stack slot there)
  refine ⟨{ k' with
    mm := mm
    process_list := Function.update k'.process_list i (some { q with state := .Gone }) },g'',?_,good,freeing,isRoot⟩
  unfold reap
  rw [run_seq (EStateM.run_get _),slot]
  dsimp only
  have nothing_stored : (wait_status 0 (exit_code q)).run k' = .ok ⟨⟩ k' := rfl
  rw [run_seq nothing_stored,run_seq (onMm_ok freed),run_seq (EStateM.run_modify _ _)]
  rfl

/-- A process as it is left in its slot when it died. -/
structure Corpse (me q : Process) (code : Nat) : Prop where
  page_table : q.page_table = me.page_table
  stack : q.kernel_stack_frame = me.kernel_stack_frame
  pid : q.pid = me.pid
  dead : q.state = .Zombie code

/-- A trap that ends in the scheduler after a death comes back with the zombie in its slot. -/
theorem death_returns (user : InUser false o k g) (running : k.process_list k.current = some me) (awake : me.state = .Running)
    (sound : Lifecycle.Sound (procs k)) {ctx : Context} {scause stval : BitVec 64} {mm : Mm} {output : List (BitVec 8)} {code : Nat}
    (handler : (trap_handler scause stval).run (trap_entry ctx scause stval k) =
      (schedule : K Nat).run (ended (entered ctx scause stval k me) (stopped ctx scause stval me) mm output code))
    (bytes : ∀ x b c, g.own x = .stack b → c < 4096 → mm.mem (x+c) = (entered ctx scause stval k me).mm.mem (x+c))
    (inv : Inv false o (ended (entered ctx scause stval k me) (stopped ctx scause stval me) mm output code) g')
    (run : trap ctx scause stval k = .user k') :
    InUser false o k' g' ∧ ∃ q, k'.process_list k.current = some q ∧ Corpse me q code := by
  obtain ⟨inv0,_,slot0,synced,_⟩ := entered_inv user running awake ctx scause stval
  have awake0 : (stopped ctx scause stval me).state = .Running := awake
  obtain ⟨cur,here,synced'⟩ := ended_synced inv0 slot0 awake0 synced mm bytes output code
  obtain ⟨q,slot,kin,_,dead⟩ := ended_slot (by rw [procs_entered running]; exact sound) slot0
    (by rw [awake0]; simp) mm output code
  rcases schedule_cases here with ⟨shut,_⟩ | ⟨j,next,goes,chosen,ready,_⟩
  · rw [trap_halt (handler.trans (shut Nat)) (by simp)] at run
    cases run
  · rw [saved_synced here synced'] at goes chosen
    have other : k.current ≠ j := by
      rintro rfl
      have same : some q = some next := slot.symm.trans chosen
      cases same
      rw [dead] at ready
      cases ready
    obtain ⟨inv',home',_⟩ := Inv.resume inv chosen ready
    have runs : (resumed (ended (entered ctx scause stval k me) (stopped ctx scause stval me) mm output code) j next).process_list
        j = some { next with state := .Running } := Function.update_self ..
    have back := leaving_user inv' home' runs rfl none
    have same : k' = leaving none (next.kernel_sp-TrapFrame.SIZE)
        (resumed (ended (entered ctx scause stval k me) (stopped ctx scause stval me) mm output code) j next) := by
      unfold trap at run
      dsimp only at run
      rw [run_seq_error (handler.trans (goes Nat))] at run
      cases run
      rfl
    rw [same]
    refine ⟨back.1,q,?_,?_,?_,?_,dead⟩
    · rw [(leaving_rest _ _ _).1]
      exact (Function.update_of_ne other _ _).trans slot
    · rw [kin.same]
      rfl
    · rw [kin.same]
      rfl
    · rw [kin.same]
      rfl

/-- The trap handler ends a process that faults. -/
theorem fault_handler (user : InUser false o k g) (running : k.process_list k.current = some me) (awake : me.state = .Running)
    {ctx : Context} {scause stval : BitVec 64} (faults : Segfaults (trap_entry ctx scause stval k) me scause stval) :
    ∃ output, (trap_handler scause stval).run (trap_entry ctx scause stval k) =
      (schedule : K Nat).run (ended (entered ctx scause stval k me) (stopped ctx scause stval me)
        (entered ctx scause stval k me).mm output 1) := by
  obtain ⟨inv,_,slot,synced,_⟩ := entered_inv user running awake ctx scause stval
  have awake0 : (stopped ctx scause stval me).state = .Running := awake
  have isRoot := inv.link.root slot (by rw [awake0]; simp)
  have cause : scause = 12 ∨ scause = 13 ∨ scause = 15 := faults.imp_right fun rest => rest.imp_right And.left
  have handler := run_trap_handler user running awake ctx scause stval
  have small : ¬ scause >>> 63 = 1 ∧ scause ≠ 8 := by
    rcases cause with rfl | rfl | rfl <;> decide
  rw [if_neg small.1,if_neg small.2,if_pos cause] at handler
  rw [handler]
  unfold page_fault_handler
  dsimp only
  by_cases store : scause = 15
  · have absent : ¬ Pending (trap_entry ctx scause stval k) me stval := by
      rcases faults with fetch | load | ⟨_,absent⟩
      · rw [store] at fetch
        exact absurd fetch (by decide)
      · rw [store] at load
        exact absurd load (by decide)
      · exact absent
    rw [if_neg (not_not.mpr store),run_seq (run_current slot)]
    rcases cow_entry_spec inv.good (stopped ctx scause stval me).page_table isRoot stval.toNat with
      ⟨_,entry,_,_,_,found⟩ | ⟨_,found⟩
    · exact absurd ⟨entry,found⟩ absent
    · obtain ⟨output,dies⟩ := run_segfault slot Nat scause stval
      refine ⟨output,?_⟩
      rw [run_seq (onMm_ok (k := entered ctx scause stval k me) found)]
      exact dies
  · obtain ⟨output,dies⟩ := run_segfault slot PUnit scause stval
    obtain ⟨cur,here,_⟩ := ended_synced inv slot awake0 synced (entered ctx scause stval k me).mm (fun _ _ _ _ _ => rfl) output 1
    refine ⟨output,?_⟩
    rw [if_pos store]
    -- The rest of the handler is never reached.
    rcases schedule_cases here with ⟨shut,_⟩ | ⟨_,_,goes,_,_,_⟩
    · rw [run_seq_error (dies.trans (shut PUnit)),shut Nat]
    · rw [run_seq_error (dies.trans (goes PUnit)),goes Nat]

/-- A fatal fault leaves the pages of the process where they are. -/
theorem fault_dies (user : InUser false o k g) (running : k.process_list k.current = some me) (awake : me.state = .Running)
    (sound : Lifecycle.Sound (procs k)) {e : Event} (fatal : Fatal k e me) (run : step e k = .user k') :
    InUser false o k' g ∧ ∃ q, k'.process_list k.current = some q ∧ Corpse me q 1 := by
  obtain ⟨scause,stval,traps,faults⟩ := fatal
  obtain ⟨output,handler⟩ := fault_handler user running awake faults
  obtain ⟨inv,_,slot,_,_⟩ := entered_inv user running awake e.ctx scause stval
  rw [step_eq,traps] at run
  exact death_returns user running awake sound handler (fun _ _ _ _ _ => rfl) (Inv.killed inv slot awake rfl) run

/-- What an exit does before the scheduler, for what the sweep over the leaves does to memory. -/
theorem exit_runs (running : k.process_list k.current = some me) {mm : Mm} (code : Nat)
    (leaves : (me.page_table.for_each_leaf 0 KERNEL_VPN2_MIN exit_leaf).run k.mm = .ok ⟨⟩ mm) :
    (sys_exit code : K Nat).run k = (schedule : K Nat).run (ended k me mm k.output code) := by
  have adopted : (reparented k me.pid).process_list k.current = some (adopt me.pid me) := by
    simp [reparented,mapTable,running]
  have same : (adopt me.pid me).page_table = me.page_table := by rw [(kin_adopt me.pid me).same]
  rw [← same] at leaves
  unfold sys_exit
  rw [run_seq (run_reparent running),run_seq (run_current adopted),
    run_seq (onMm_ok (k := reparented k me.pid) leaves),(run_die (k := { reparented k me.pid with mm := mm }) adopted code).1]
  rfl

/-- An exit drops the pages of the process. -/
theorem exit_dies (user : InUser false o k g) (running : k.process_list k.current = some me) (awake : me.state = .Running)
    (sound : Lifecycle.Sound (procs k)) {e : Event} (exits : Calls e SYS_EXIT ∨ Calls e SYS_EXIT_GROUP) (run : step e k = .user k') :
    ∃ g', InUser false o k' g' ∧ (∃ q, k'.process_list k.current = some q ∧ Corpse me q (argument e 0)) ∧ g.next ≤ g'.next ∧
      (∀ n d, UserLeaf g me.page_table.root n d → g'.refs (ppn_to_addr d) < g.refs (ppn_to_addr d)) ∧
      ((∀ n d, ¬ UserLeaf g me.page_table.root n d) → g' = g) := by
  obtain ⟨inv,_,slot,_,_⟩ := entered_inv user running awake e.ctx 8 0
  have awake0 : (stopped e.ctx 8 0 me).state = .Running := awake
  have isRoot := inv.link.root slot (by rw [awake0]; simp)
  have call : e.action = .ecall := exits.elim And.left And.left
  -- What the sweep over the leaves does decides the rest.
  have handler {mm : Mm} (leaves : (me.page_table.for_each_leaf 0 KERNEL_VPN2_MIN exit_leaf).run (entered e.ctx 8 0 k me).mm =
      .ok ⟨⟩ mm) : (trap_handler 8 0).run (trap_entry e.ctx 8 0 k) =
        (schedule : K Nat).run (ended (entered e.ctx 8 0 k me) (stopped e.ctx 8 0 me) mm (entered e.ctx 8 0 k me).output
          (argument e 0)) := by
    rw [call_run user running awake,callRun_exit exits]
    exact exit_runs slot (argument e 0) leaves
  rw [step_call call] at run
  by_cases empty : ∀ n d, ¬ UserLeaf g me.page_table.root n d
  · have idle := exit_nothing me.page_table inv.good isRoot empty
    obtain ⟨user',q,here,corpse⟩ := death_returns user running awake sound (handler idle) (fun _ _ _ _ _ => rfl)
      (Inv.killed inv slot awake0 rfl) run
    exact ⟨g,user',⟨q,here,corpse⟩,le_refl _,fun n d leaf => absurd leaf (empty n d),fun _ => rfl⟩
  · obtain ⟨mm,g',leaves,acts,fewer⟩ := exit_spec me.page_table inv.good isRoot
    obtain ⟨user',q,here,corpse⟩ := death_returns user running awake sound (handler leaves) acts.aside.stack_bytes
      (Inv.ended inv slot awake0 acts) run
    exact ⟨g',user',⟨q,here,corpse⟩,acts.aside.next,fewer,fun none => absurd none empty⟩

/-! ### Both endings -/

/-- Two kernels in which the same was freed from the same ledger have the same resources. -/
theorem same_resources (user : InUser false o k g) (running : k.process_list k.current = some me) {k1 k2 t1 t2 : Kernel} {g1 g2 : Ledger}
    (there : me.state ≠ .Gone) {s : Nat} (first : Buried o k1 t1 me.page_table.root s g g1) (second : Buried o k2 t2 me.page_table.root s g g2) :
    SameResources k k.current t1 t2 := by
  have own : ∀ x, g1.own x = g2.own x := by
    intro x
    by_cases freed : Belongs g me.page_table.root s x
    · rw [(first.freeing.freed x freed).1,(second.freeing.freed x freed).1]
    · rw [(first.freeing.others x freed).1,(second.freeing.others x freed).1]
  have refs : ∀ x, g1.refs x = g2.refs x := by
    intro x
    by_cases freed : Belongs g me.page_table.root s x
    · rw [(first.freeing.freed x freed).2,(second.freeing.freed x freed).2]
    · rw [(first.freeing.others x freed).2,(second.freeing.others x freed).2]
  have pool1 := first.good.mirrors.pool
  have pool2 := second.good.mirrors.pool
  have next : g1.next = g2.next := first.freeing.next.trans second.freeing.next.symm
  refine ⟨fun f aligned low high => ?_,fun f aligned => ?_,?_⟩
  · unfold refsOf
    by_cases held : g1.own f = .none
    · have outside : f < o.base ∨ g1.next ≤ f := by
        by_contra inside
        exact (pool1.owned f).mpr ⟨aligned,by omega,by omega⟩ held
      rw [pool1.fresh f aligned low outside high,pool2.fresh f aligned low (by rw [← next]; exact outside) high]
    · rw [pool1.refs f held,pool2.refs f (by rw [← own]; exact held),refs]
  · unfold Available freeList
    rw [cells_free pool1,cells_free pool2,pool1.free,pool2.free,own,pool1.next,pool2.next,next]
  · intro j q other slot thereQ va
    have isRoot := user.inv.link.root slot thereQ
    have apart : q.page_table.root ≠ me.page_table.root := fun same =>
      other (user.inv.link.own_root slot running thereQ there same)
    have root1 : g1.own q.page_table.root = .root := ((first.freeing.left first.isRoot).1 _).mpr ⟨isRoot,apart⟩
    have root2 : g2.own q.page_table.root = .root := ((second.freeing.left second.isRoot).1 _).mpr ⟨isRoot,apart⟩
    have tree : g1.tree = g2.tree := first.freeing.tree.trans second.freeing.tree.symm
    ext d
    rw [userLeaf_iff first.good _ root1,userLeaf_iff second.good _ root2]
    constructor
    · intro leaf
      exact ⟨root2,leaf.inside,by rw [← tree]; exact leaf.entry,leaf.valid,leaf.user⟩
    · intro leaf
      exact ⟨root1,leaf.inside,by rw [tree]; exact leaf.entry,leaf.valid,leaf.user⟩

/-- The two endings of the running process, each with the reaping after it. -/
theorem endings_agree (user : InUser false o k g) (running : k.process_list k.current = some me) (awake : me.state = .Running)
    (sound : Lifecycle.Sound (procs k)) {e1 e2 : Event} {k1 k2 : Kernel} (fatal : Fatal k e1 me)
    (exits : Calls e2 SYS_EXIT ∨ Calls e2 SYS_EXIT_GROUP) (run1 : step e1 k = .user k1) (run2 : step e2 k = .user k2) :
    ∃ t1 t2, (reap 0 k.current).run k1 = .ok me.pid t1 ∧ (reap 0 k.current).run k2 = .ok me.pid t2 ∧
      (SameEnd k k.current me t1 t2 ↔ ∀ va, userLeaf k.mm me.page_table va = none) := by
  have there : me.state ≠ .Gone := by rw [awake]; simp
  have good := user.inv.good
  have isRoot := user.inv.link.root running there
  obtain ⟨user1,q1,slot1,corpse1⟩ := fault_dies user running awake sound fatal run1
  obtain ⟨g2,user2,⟨q2,slot2,corpse2⟩,further,fewer,idle⟩ := exit_dies user running awake sound exits run2
  obtain ⟨t1,h1,reaped1,buried1⟩ := reap_buries user1 slot1 corpse1.dead
  obtain ⟨t2,h2,reaped2,buried2⟩ := reap_buries user2 slot2 corpse2.dead
  rw [corpse1.pid] at reaped1
  rw [corpse2.pid] at reaped2
  rw [corpse1.page_table,corpse1.stack] at buried1
  rw [corpse2.page_table,corpse2.stack] at buried2
  refine ⟨t1,t2,reaped1,reaped2,?_,?_⟩
  · intro same va
    by_contra found
    obtain ⟨e,found⟩ := Option.ne_none_iff_exists'.mp found
    have leaf := (userLeaf_iff good _ isRoot).mp found
    have isUser := good.sound.user leaf
    obtain ⟨aligned,low,high⟩ := good.mirrors.pool.managed (f := ppn_to_addr e) (by rw [isUser]; simp)
    obtain ⟨_,above,below⟩ := (good.mirrors.pool.owned (ppn_to_addr e)).mp (by rw [isUser]; simp)
    have kept := buried1.freeing.others _ (not_belongs isRoot (.inl isUser))
    -- The reference of the killed process is still counted, that of the other is not.
    have less : h2.refs (ppn_to_addr e) < h1.refs (ppn_to_addr e) := by
      rw [kept.2]
      by_cases freed : Belongs g2 me.page_table.root me.kernel_stack_frame (ppn_to_addr e)
      · rw [(buried2.freeing.freed _ freed).2]
        exact good.sound.positive _ isUser
      · rw [(buried2.freeing.others _ freed).2]
        exact fewer _ e leaf
    have pool1 := buried1.good.mirrors.pool
    have pool2 := buried2.good.mirrors.pool
    have next2 : h2.next = g2.next := buried2.freeing.next
    have held1 : h1.own (ppn_to_addr e) ≠ .none := by
      rw [kept.1]
      intro none
      have used : (retire g me.page_table.root).own (ppn_to_addr e) = .user := retire_user.mpr isUser
      rw [none] at used
      cases used
    have held2 : h2.own (ppn_to_addr e) ≠ .none := (pool2.owned _).mpr ⟨aligned,above,by omega⟩
    have equal := congrArg BitVec.toNat (same.same.counts _ aligned low high)
    rw [refsOf,refsOf,pool1.refs _ held1,pool2.refs _ held2,BitVec.toNat_ofNat,BitVec.toNat_ofNat,
      Nat.mod_eq_of_lt (pool1.small _ held1),Nat.mod_eq_of_lt (pool2.small _ held2)] at equal
    omega
  · intro empty
    have none : ∀ n d, ¬ UserLeaf g me.page_table.root n d := by
      intro n d leaf
      have found := (userLeaf_page good me.page_table isRoot leaf.inside).mpr leaf
      rw [empty] at found
      cases found
    rw [idle none] at buried2
    refine ⟨same_resources user running there buried1 buried2,fun va e found => ?_,fun va e found => ?_⟩
    · rw [empty] at found
      cases found
    · rw [empty] at found
      cases found

end

/-- The two endings of a process agree on resources exactly when it has no user page left. -/
theorem same_end_iff {cfg : Config} {k k1 k2 : Kernel} {me : Process} {e1 e2 : Event} (reached : Reachable cfg WaitsWell k)
    (running : runner k = some me) (fatal : Fatal k e1 me) (exits : Calls e2 SYS_EXIT ∨ Calls e2 SYS_EXIT_GROUP)
    (run1 : step e1 k = .user k1) (run2 : step e2 k = .user k2) :
    ∃ t1 t2, (reap 0 k.current).run k1 = .ok me.pid t1 ∧ (reap 0 k.current).run k2 = .ok me.pid t2 ∧
      (SameEnd k k.current me t1 t2 ↔ ∀ va, userLeaf k.mm me.page_table va = none) := by
  obtain ⟨_,_,_,_,g,_,_,user⟩ := reachable_user false (fun k e (may : WaitsWell k e) => ⟨may,by simp⟩) reached
  obtain ⟨me',running',awake⟩ := reachable_awake reached
  rw [runner,running',Option.some.injEq] at running
  subst running
  exact endings_agree user running' awake (reachable_sound reached) fatal exits run1 run2

/-! ### A child that ends -/

section
variable {o : Origin} {k : Kernel} {g : Ledger} {me : Process}

/-- A fatal fault comes back when another process is ready. -/
theorem fault_goes (user : InUser false o k g) (running : k.process_list k.current = some me) (awake : me.state = .Running)
    {e : Event} (fatal : Fatal k e me) {j : Fin MAX_PROCESSES}
    (picked : nextSlot (dieSlots (procs k) (header me) 1) k.current = some j) : ∃ k', step e k = .user k' := by
  obtain ⟨scause,stval,traps,faults⟩ := fatal
  obtain ⟨output,handler⟩ := fault_handler user running awake faults
  obtain ⟨inv,_,slot,synced,_⟩ := entered_inv user running awake e.ctx scause stval
  obtain ⟨cur,here,synced'⟩ := ended_synced inv slot (show (stopped e.ctx scause stval me).state = .Running from awake) synced
    (entered e.ctx scause stval k me).mm (fun _ _ _ _ _ => rfl) output 1
  have table : slots (ended (entered e.ctx scause stval k me) (stopped e.ctx scause stval me)
      (entered e.ctx scause stval k me).mm output 1).process_list = dieSlots (procs k) (header me) 1 := by
    rw [slots_ended,procs_entered running]
    rfl
  obtain ⟨sp,kh,goes⟩ := schedule_picks here synced' (j := j) (by rw [table]; exact picked)
  rw [step_eq,traps]
  exact trap_restore (handler.trans goes)

/-- A fetch from an address that is not canonical is fatal. -/
theorem fetch_fatal (ctx : Context) (k : Kernel) (me : Process) : Fatal k ⟨ctx,.fetch (BitVec.ofNat 64 (2^63))⟩ me := by
  have fault : Mmu.translate k.hart k.mm.mem .user .fetch (BitVec.ofNat 64 (2^63)).toNat = none := by
    unfold Mmu.translate
    rw [if_neg (by decide)]
  refine ⟨12,BitVec.ofNat 64 (2^63),?_,.inl rfl⟩
  unfold trapOf
  dsimp only
  rw [fault]
  rfl

end

/-- The sample machine runs a child of init that shares the code of init, while init waits for it. -/
theorem sample_child : ∃ o k g me, Reachable (sample true) WaitsWell k ∧ InUser false o k g ∧ runner k = some me ∧
    me.state = .Running ∧ procs k = ⟨tableOf [⟨1,0,.Blocked⟩,⟨2,1,.Running⟩],1,3⟩ ∧
    ∃ e, UserLeaf g me.page_table.root 16 e := by
  obtain ⟨o,k0,_,k2,g0,g1,init,child,handover⟩ := sample_handover
  obtain ⟨_,_,forked⟩ := handover.branched.forked
  have at2 := handover.at2
  have before := handover.branched.before
  rw [show k0.current = 0 from congrArg System.current handover.at0.procs,handover.slot,Option.some.injEq] at before
  -- Init has its code at page 16, and so has its child.
  obtain ⟨p,page⟩ := Option.isSome_iff_exists.mp ((handover.pages.there 16).mpr (.inl ⟨by decide,by decide⟩))
  have roots (x : Nat) (isRoot : g1.own x = .root) : ∃ e, UserLeaf g1 x 16 e := by
    rcases (forked.roots x).mp isRoot with old | rfl
    · obtain ⟨i,q,slotQ,_,rootQ⟩ := handover.at0.user.inv.link.root_back old
      have only : i = 0 := by
        have found := slots_some slotQ
        rw [show slots k0.process_list = _ from congrArg System.slots handover.at0.procs] at found
        obtain ⟨inside,_⟩ := List.getElem?_eq_some_iff.mp found
        exact Fin.ext (by simpa using inside)
      rw [only,handover.slot,Option.some.injEq] at slotQ
      rw [← rootQ,← slotQ] at isRoot ⊢
      have kept := handover.branched.kept
      rw [← before] at kept
      exact ⟨_,(space_leaf isRoot ((congrFun kept 16).trans page)).2⟩
    · have copied := handover.branched.copied
      rw [← before] at copied
      exact ⟨_,(space_leaf isRoot ((congrFun copied 16).trans page)).2⟩
  obtain ⟨me,running,same⟩ := @runner_of _ _ ⟨2,1,.Running⟩ at2.procs rfl
  have awake : me.state = .Running := congrArg Lifecycle.Header.state same
  exact ⟨o,k2,g1,me,(plain_waits at2.run).reachable,at2.user,running,awake,at2.procs,
    roots _ (at2.user.inv.link.root running (by rw [awake]; simp))⟩

/-- The kernels after the two endings of a child that has a user page. -/
theorem sample_endings : ∃ o k g me e1 e2 k1 k2, Reachable (sample true) WaitsWell k ∧ InUser false o k g ∧ runner k = some me ∧
    me.state = .Running ∧ Fatal k e1 me ∧ Calls e2 SYS_EXIT ∧ step e1 k = .user k1 ∧ step e2 k = .user k2 ∧
    ∃ va d, userLeaf k.mm me.page_table va = some d := by
  obtain ⟨o,k,g,me,reached,user,running,awake,same,d,leaf⟩ := sample_child
  have current : k.current = 1 := congrArg System.current same
  have headers : header me = ⟨2,1,.Running⟩ := by
    have found := slots_some running
    rw [show slots k.process_list = _ from congrArg System.slots same,current] at found
    exact (Option.some.inj found).symm
  have fatal := fetch_fatal ⟨fun _ => 0,0,0⟩ k me
  have picks {code : Nat} (few : code = 1 ∨ code = 0) : nextSlot (dieSlots (procs k) (header me) code) k.current = some 0 := by
    rw [same,headers,current]
    rcases few with rfl | rfl
    · decide +kernel
    · decide +kernel
  obtain ⟨k1,run1⟩ := fault_goes user running awake fatal (picks (.inl rfl))
  obtain ⟨k2,run2⟩ := exit_goes user running awake (e := callEvent 93 []) (.inl (callEvent_calls _ _)) (picks (.inr (by decide)))
  refine ⟨o,k,g,me,_,_,k1,k2,reached,user,running,awake,fatal,callEvent_calls _ _,run1,run2,16*4096,d,?_⟩
  exact (userLeaf_page user.inv.good _ leaf.root leaf.inside).mpr leaf

theorem same_end_iff_of_child : ∃ k me k1 k2 t1 t2, runner k = some me ∧ (reap 0 k.current).run k1 = .ok me.pid t1 ∧
    (reap 0 k.current).run k2 = .ok me.pid t2 ∧
    (SameEnd k k.current me t1 t2 ↔ ∀ va, userLeaf k.mm me.page_table va = none) := by
  obtain ⟨_,k,_,me,e1,e2,k1,k2,reached,_,running,_,fatal,exits,run1,run2,_⟩ := sample_endings
  obtain ⟨t1,t2,reaped1,reaped2,iff⟩ := same_end_iff reached running fatal (.inl exits) run1 run2
  exact ⟨k,me,k1,k2,t1,t2,running,reaped1,reaped2,iff⟩

/-- A child that is killed leaves frames behind that one that exits does not. -/
theorem killed_child_leaks : ∃ k me e1 e2 k1 k2 t1 t2, Reachable (sample true) WaitsWell k ∧ runner k = some me ∧
    Fatal k e1 me ∧ Calls e2 SYS_EXIT ∧ step e1 k = .user k1 ∧ step e2 k = .user k2 ∧
    (reap 0 k.current).run k1 = .ok me.pid t1 ∧ (reap 0 k.current).run k2 = .ok me.pid t2 ∧ ¬ SameEnd k k.current me t1 t2 := by
  obtain ⟨_,k,_,me,e1,e2,k1,k2,reached,user,running,awake,fatal,exits,run1,run2,va,d,found⟩ := sample_endings
  obtain ⟨t1,t2,reaped1,reaped2,iff⟩ := endings_agree user running awake (reachable_sound reached) fatal (.inl exits) run1 run2
  refine ⟨k,me,e1,e2,k1,k2,t1,t2,reached,running,fatal,exits,run1,run2,reaped1,reaped2,fun same => ?_⟩
  rw [iff.mp same va] at found
  cases found

end Unit00.Exits
