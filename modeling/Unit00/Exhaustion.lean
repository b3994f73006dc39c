import Unit00.Deaths
import Unit00.Boundary

/-!
What happens when frames run out. A fork whose child gets no frames for its
tables still reports a child, with pages missing; it is complete exactly when
there are frames for all of them. Where a frame is wanted at once, for a copy on
write or for the root and the stack of a child, the kernel panics instead.
-/
namespace Unit00.Exhaustion
open Unit00.Memory Unit00.Execution Unit00.Frame Unit00.Paging Unit00.Paging.PTEntry Unit00.Trees Unit00.Ownership
open Unit00.Mirror Unit00.Space Unit00.Pages Unit00.Growing Unit00.Ranges Unit00.Forking Unit00.Access Unit00.Mmu
open Unit00.Task Unit00.Scheduler Unit00.Syscall Unit00.Machine Unit00.Lifecycle Unit00.Steps Unit00.Invariant
open Unit00.Services Unit00.Traps Unit00.View Unit00.Boot Unit00.Runs Unit00.Progress Unit00.Stages Unit00.Deaths Unit00.Isolation
open Unit00.Boundary

/-! ### Complete forks -/

/-- The child of a fork has every leaf below the kernel half that the parent has, and each frame is counted once more
    for each user leaf that was added. -/
structure ForkComplete (k k' : Kernel) (parent child : PageTable) : Prop where
  leaves : ∀ va, va < KERNEL_VPN2_MIN*2^30 → ((leafAt k'.mm child va).isSome ↔ (leafAt k.mm parent va).isSome) ∧
    ((leafAt k'.mm parent va).isSome ↔ (leafAt k.mm parent va).isSome)
  same : ∀ va e d, va < KERNEL_VPN2_MIN*2^30 → leafAt k'.mm parent va = some e → leafAt k'.mm child va = some d →
    ppn_to_addr d = ppn_to_addr e ∧ flags d = flags e ∧
      (is_u e = true → is_cow d = is_cow e ∧ is_w d = false ∧ is_w e = false)
  refs : ∀ f i p va e, k.process_list i = some p → p.state ≠ .Gone → userLeaf k.mm p.page_table va = some e →
    ppn_to_addr e = f → (refsOf k'.mm f).toNat = (refsOf k.mm f).toNat+
      { n | n < 2^27 ∧ ∃ d, userLeaf k'.mm child (n*4096) = some d ∧ ppn_to_addr d = f }.ncard

/-- There are frames for the root and the kernel stack of a child and for all its tables below the kernel half. -/
def ForkFitsAll (m : Mm) (pt : PageTable) : Prop := tablesFor (present m pt)+1+KERNEL_STACK_PAGES ≤ freeFrames m

section
variable {exact : Bool} {base : Nat} {m m' : Mm} {g g' : Ledger} {r c s : Nat}

theorem leafAt_iff (good : Good exact base m g) (pt : PageTable) (isRoot : g.own pt.root = .root) {va : Nat} {e : PTEntry} :
    leafAt m pt va = some e ↔ (g.tree pt.root).leaf (pageOf va) = e ∧ is_valid e = true := by
  rw [leafAt_eq good pt isRoot,Option.filter_eq_some_iff,Option.some.injEq]

theorem leafAt_isSome (good : Good exact base m g) (pt : PageTable) (isRoot : g.own pt.root = .root) (va : Nat) :
    (leafAt m pt va).isSome ↔ is_valid ((g.tree pt.root).leaf (pageOf va)) = true := by
  rw [leafAt_eq good pt isRoot,Option.filter_some]
  split
  · next valid => simp [valid]
  · next invalid => simp [invalid]

theorem forkFitsAll_iff (good : Good exact base m g) (pt : PageTable) (isRoot : g.own pt.root = .root) :
    ForkFitsAll m pt ↔ FitsAll g pt.root := by
  rw [ForkFitsAll,FitsAll,present_eq good pt isRoot,freeFrames_eq good.mirrors.pool]

variable (good : Good exact base m g) (isRoot : g.own r = .root) (forked : Forked exact base r c s m m' g g')

include good isRoot forked

omit good isRoot in
/-- A page of the user half with a leaf after fork had one before. -/
theorem parent_valid {n : Nat} (low : n < 2^19) :
    is_valid ((g'.tree r).leaf n) = true ↔ is_valid ((g.tree r).leaf n) = true := by
  by_cases user : ∃ e, UserLeaf g r n e
  · obtain ⟨e,leaf⟩ := user
    rw [forked.parent n e leaf,sharedEntry_valid,leaf.entry]
  · rw [(forked.absent n low (not_exists.mp user)).1]

/-- With frames for all tables the child has the leaves that the parent has now. -/
theorem child_leaf (fits : FitsAll g r) {n : Nat} (low : n < 2^19) : (g'.tree c).leaf n = (g'.tree r).leaf n := by
  by_cases user : ∃ e, UserLeaf g r n e
  · obtain ⟨e,leaf⟩ := user
    rw [forked.parent n e leaf]
    exact (forked.child n e leaf).resolve_right fun missing => missing.2 (fits_users good fits)
  · obtain ⟨kept,empty⟩ := forked.absent n low (not_exists.mp user)
    rw [kept]
    have plain : ¬ (is_valid ((g.tree r).leaf n) = true ∧ is_u ((g.tree r).leaf n) = true) := fun both =>
      user ⟨_,isRoot,by omega,rfl,both.1,both.2⟩
    rcases good.sound.plain r n isRoot low plain with none | ⟨rfl,device⟩
    · rw [none,empty none]
    · rw [device]
      exact (forked.device device).resolve_right fun missing => missing.2 fits

/-- The child is complete exactly when there are frames for all its tables. -/
theorem leaves_iff : (∀ n, n < 2^19 → (is_valid ((g'.tree c).leaf n) = true ↔ is_valid ((g.tree r).leaf n) = true)) ↔
    FitsAll g r := by
  constructor
  · intro leaves
    exact forked.needed_all fun n present => (leaves n present.1).mpr present.2
  · intro fits n low
    rw [child_leaf good isRoot forked fits low]
    exact parent_valid forked low

/-- Each frame is counted once more for the leaf of the child that names it. -/
theorem forked_refs (fits : FitsAll g r) {f : Nat} (isUser : g.own f = .user) :
    g'.refs f = g.refs f+{ n | n < 2^27 ∧ ∃ d, UserLeaf g' c n d ∧ ppn_to_addr d = f }.ncard := by
  have isRoot' : g'.own r = .root := (forked.roots r).mpr (.inl isRoot)
  have isChild : g'.own c = .root := (forked.roots c).mpr (.inr rfl)
  have back : ∀ n d, UserLeaf g' c n d → ∃ e, UserLeaf g r n e ∧ ppn_to_addr e = ppn_to_addr d := by
    intro n d leaf
    have low := forked.good.sound.low leaf
    by_contra none
    have absent : ∀ e, ¬ UserLeaf g r n e := by
      intro e here
      refine none ⟨e,here,?_⟩
      have same := child_leaf good isRoot forked fits low
      rw [leaf.entry,forked.parent n e here] at same
      rw [same,ppn_sharedEntry]
    have same := child_leaf good isRoot forked fits low
    rw [leaf.entry,(forked.absent n low absent).1] at same
    exact absent d ⟨isRoot,leaf.inside,same.symm,leaf.valid,leaf.user⟩
  by_cases named : ∃ n e, UserLeaf g r n e ∧ ppn_to_addr e = f
  · obtain ⟨n,e,leaf,rfl⟩ := named
    have low := good.sound.low leaf
    have single : { j | j < 2^27 ∧ ∃ d, UserLeaf g' c j d ∧ ppn_to_addr d = ppn_to_addr e } = {n} := by
      ext j
      simp only [Set.mem_ofPred_eq,Set.mem_singleton_iff]
      constructor
      · rintro ⟨_,d,here,same⟩
        obtain ⟨b,before,address⟩ := back j d here
        exact good.sound.page before leaf (address.trans same)
      · rintro rfl
        refine ⟨leaf.inside,sharedEntry e,⟨isChild,leaf.inside,?_,?_,?_⟩,ppn_sharedEntry e⟩
        · rw [child_leaf good isRoot forked fits low,forked.parent j e leaf]
        · rw [sharedEntry_valid]
          exact leaf.valid
        · rw [sharedEntry_u]
          exact leaf.user
    rw [single,Set.ncard_singleton]
    exact forked.refs n e leaf
  · have none : { n | n < 2^27 ∧ ∃ d, UserLeaf g' c n d ∧ ppn_to_addr d = f } = ∅ := by
      ext j
      simp only [Set.mem_ofPred_eq,Set.mem_empty_iff_false,iff_false]
      rintro ⟨_,d,here,same⟩
      obtain ⟨e,before,address⟩ := back j d here
      exact named ⟨j,e,before,address.trans same⟩
    rw [none,Set.ncard_empty]
    exact (forked.unshared f isUser fun n e leaf same => named ⟨n,e,leaf,same⟩).2

end

section
variable {cfg : Config} {k k' : Kernel} {me : Process} {e : Event}

theorem page_low {va : Nat} (low : va < KERNEL_VPN2_MIN*2^30) : pageOf va = va/4096 ∧ va/4096 < 2^19 := by
  have two : KERNEL_VPN2_MIN = 2 := rfl
  unfold pageOf
  omega

/-- A fork that reports a child is complete exactly when there are frames for all tables of the child. -/
theorem fork_reports {exact : Bool} {o : Origin} {g : Ledger} (user : InUser exact o k g) (running : runner k = some me)
    (awake : me.state = .Running) (calls : Calls e SYS_FORK) (clean : exact = true → Clean k e) (run : step e k = .user k')
    {i : Fin MAX_PROCESSES} (free : emptySlot (procs k).slots = some i) :
    ∃ child, k'.process_list i = some child ∧ answer e.ctx 8 0 k = some child.pid ∧ child.pid = k.next_pid ∧
      (ForkComplete k k' me.page_table child.page_table ↔ ForkFitsAll k.mm me.page_table) := by
  obtain ⟨c,s,mm,g',forked,user',_,table,_,_,result,_⟩ := fork_next user running awake calls clean run free
  have there : me.state ≠ .Gone := by rw [awake]; simp
  have isRoot := user.inv.link.root running there
  have good := user.inv.good
  have good' := user'.inv.good
  have isRoot' : g'.own me.page_table.root = .root := (forked.roots _).mpr (.inl isRoot)
  have isChild : g'.own (forkChild (stopped e.ctx 8 0 me) k.next_pid c s).page_table.root = .root := (forked.roots c).mpr (.inr rfl)
  refine ⟨forkChild (stopped e.ctx 8 0 me) k.next_pid c s,by rw [table]; exact Function.update_self ..,result,rfl,?_⟩
  generalize made : (forkChild (stopped e.ctx 8 0 me) k.next_pid c s).page_table = pt at isChild ⊢
  have root_pt : pt.root = c := by rw [← made]; rfl
  obtain ⟨inv1,_,_,_,_⟩ := entered_inv user running awake e.ctx 8 0
  rw [forkFitsAll_iff good me.page_table isRoot,← leaves_iff inv1.good isRoot forked]
  constructor
  · intro complete n low
    have place : n*4096 < KERNEL_VPN2_MIN*2^30 := by
      have two : KERNEL_VPN2_MIN = 2 := rfl
      omega
    have both := (complete.leaves (n*4096) place).1
    rw [leafAt_isSome good' pt isChild,leafAt_isSome good me.page_table isRoot,pageOf_page (by omega),root_pt] at both
    exact both
  · intro leaves
    have fits := (leaves_iff inv1.good isRoot forked).mp leaves
    refine ⟨?_,?_,?_⟩
    · intro va low
      obtain ⟨page,inside⟩ := page_low low
      rw [leafAt_isSome good' pt isChild,leafAt_isSome good' me.page_table isRoot',leafAt_isSome good me.page_table isRoot,page,root_pt]
      exact ⟨leaves _ inside,parent_valid forked inside⟩
    · intro va e1 d low found made
      obtain ⟨page,inside⟩ := page_low low
      obtain ⟨here,valid⟩ := (leafAt_iff good' me.page_table isRoot').mp found
      obtain ⟨there',_⟩ := (leafAt_iff good' pt isChild).mp made
      rw [page] at here there'
      rw [root_pt,child_leaf inv1.good isRoot forked fits inside,here] at there'
      subst there'
      refine ⟨rfl,rfl,fun isUser => ?_⟩
      have plain : is_w e1 = false := by
        by_cases before : ∃ b, UserLeaf g me.page_table.root (va/4096) b
        · obtain ⟨b,leaf⟩ := before
          rw [forked.parent _ b leaf] at here
          rw [← here]
          exact sharedEntry_w b
        · rw [(forked.absent _ inside (not_exists.mp before)).1] at here
          exact absurd ⟨e1,isRoot,by omega,here,valid,isUser⟩ before
      exact ⟨rfl,plain,plain⟩
    · rintro f j p va e1 slot live found rfl
      have leaf := (userLeaf_iff good p.page_table (user.inv.link.root slot live)).mp found
      have isUser := good.sound.user leaf
      have counted := forked_refs inv1.good isRoot forked fits isUser
      have held : g.own (ppn_to_addr e1) ≠ .none := by rw [isUser]; simp
      have mapped : g'.own (ppn_to_addr e1) ≠ .none := by
        have order := good'.mirrors.pool.order
        refine (good'.mirrors.pool.owned _).mpr ?_
        obtain ⟨aligned,low,high⟩ := (good.mirrors.pool.owned _).mp held
        exact ⟨aligned,low,lt_of_lt_of_le high forked.next⟩
      have count {m : Mm} {x : Ledger} (pool : Pool o.base m x) (here : x.own (ppn_to_addr e1) ≠ .none) :
          (refsOf m (ppn_to_addr e1)).toNat = x.refs (ppn_to_addr e1) := by
        rw [refsOf,pool.refs _ here,BitVec.toNat_ofNat]
        exact Nat.mod_eq_of_lt (pool.small _ here)
      rw [count good.mirrors.pool held,count good'.mirrors.pool mapped,counted]
      congr 2
      ext n
      simp only [Set.mem_ofPred_eq]
      refine and_congr_right fun inside => exists_congr fun d => and_congr_left fun _ => ?_
      rw [userLeaf_page good' pt isChild inside,root_pt]

/-- A fork that reports a child, in any state reached, is complete exactly when there are frames for all tables of the
    child. -/
theorem fork_complete_iff (reached : Reachable cfg WaitsWell k) (running : runner k = some me) (calls : Calls e SYS_FORK)
    (run : step e k = .user k') {i : Fin MAX_PROCESSES} (free : emptySlot (procs k).slots = some i) :
    ∃ child, k'.process_list i = some child ∧ answer e.ctx 8 0 k = some child.pid ∧ child.pid = k.next_pid ∧
      (ForkComplete k k' me.page_table child.page_table ↔ ForkFitsAll k.mm me.page_table) := by
  obtain ⟨_,_,_,_,g,_,_,user⟩ := reachable_user false (fun k e (may : WaitsWell k e) => ⟨may,by simp⟩) reached
  obtain ⟨me',running',awake⟩ := reachable_awake reached
  rw [runner,running',Option.some.injEq] at running
  subst running
  exact fork_reports user running' awake calls (by simp) run free

end

/-! ### A machine without memory to spare -/

/-- The sample machine with a kernel image so large that a boot leaves only a few frames. -/
noncomputable def narrow (spare : Nat) : Config :=
  { sample true with kernel_end := RAM_END-(bootCost (sample true)+spare)*4096 }

theorem sample_cost : bootCost (sample true) ≤ 80 := by
  have len : Eager.pageUp (progLen (sample true)) = 1 := by decide
  have cost := bootCost_le (sample_fits true).2.2.1
  omega

theorem narrow_len (spare : Nat) : progLen (narrow spare) = progLen (sample true) := by
  simp only [progLen,narrow]

theorem narrow_cost (spare : Nat) : bootCost (narrow spare) = bootCost (sample true) := bootCost_len (narrow_len spare)

theorem narrow_base (spare : Nat) :
    bootBase (narrow spare) = RAM_END-(bootCost (sample true)+spare)*4096 := by
  have cost := sample_cost
  have ram : RAM_END = 0x88000*4096 := rfl
  unfold bootBase narrow mask_page
  dsimp only
  omega

theorem narrow_fits {spare : Nat} (few : spare ≤ 100) : BootFits (narrow spare) := by
  have cost := sample_cost
  have ram : RAM_END = 0x88000*4096 := rfl
  have start : RAM_BASE = 0x80000*4096 := rfl
  have same := narrow_cost spare
  have program : ProgramFits (narrow spare) := by
    have fits := (sample_fits true).2.2.1
    unfold ProgramFits at fits ⊢
    rw [narrow_len]
    exact fits
  refine ⟨?_,?_,program,?_⟩
  · rw [narrow_base spare]
    omega
  · rw [narrow_base spare]
    omega
  · rw [narrow_base spare,same]
    omega

theorem lacking_among {bound : Nat} {wanted : Nat → Prop} {t : Nat → Option Nat} {s : Finset Nat}
    (inside : ∀ v, wanted v → t v = none → v ∈ s) : lacking bound wanted t ≤ s.card := by
  classical
  unfold lacking
  refine Finset.card_le_card fun v member => ?_
  exact inside v (Finset.mem_filter.mp member).2.1 (Finset.mem_filter.mp member).2.2

theorem lacking_ge {bound : Nat} {wanted : Nat → Prop} {s : Finset Nat} (inside : ∀ v ∈ s, v < bound ∧ wanted v) :
    s.card ≤ lacking bound wanted fun _ => none := by
  classical
  unfold lacking
  refine Finset.card_le_card fun v member => ?_
  rw [Finset.mem_filter,Finset.mem_range]
  exact ⟨(inside v member).1,(inside v member).2,rfl⟩

/-- After its boot the machine has a frame or two more than it should spare, and init needs three tables. -/
theorem narrow_stage {spare : Nat} (few : spare ≤ 100) :
    ∃ o k g me, boot (narrow spare) = .user k ∧ Stage (narrow spare) [] o ⟨tableOf [⟨1,0,.Running⟩],0,2⟩ spare k g ∧ runner k = some me ∧
      me.state = .Running ∧ room g ≤ spare+1 ∧ 3 ≤ tablesFor (leafPages g me.page_table.root) := by
  obtain ⟨k,booted⟩ := boot_succeeds (narrow_fits few)
  obtain ⟨r,s,m,g,rfl,launch⟩ := boot_launch false booted
  have isRoot := launch.booted.root
  have tree := launch.user.inv.good.mirrors.tables.tree r isRoot
  have len : Eager.pageUp (progLen (narrow spare)) = 1 := by
    rw [narrow_len]
    decide
  have code : USER_CODE_BASE/4096 = 16 := rfl
  have stack : USER_STACK_PAGE/4096 = 258048 := rfl
  have users : ∀ n, n = 16 ∨ n = 258048 → is_valid ((g.tree r).leaf n) = true := by
    intro n which
    have there := (launch.initial.there n).mpr (by rw [len]; omega)
    obtain ⟨page,found⟩ := Option.isSome_iff_exists.mp there
    have leaf := (space_leaf isRoot found).2
    rw [← leaf.entry]
    exact leaf.valid
  have present : ∀ n ∈ bootPages (progLen (narrow spare)), n ≠ devicePage → n < 2^27 ∧ is_valid ((g.tree r).leaf n) = true := by
    have ram : RAM_END/4096 = 557056 := rfl
    have start : RAM_BASE/4096 = 524288 := rfl
    rintro n (((inside | device) | inside) | top) other
    · obtain ⟨low,high⟩ : RAM_BASE/4096 ≤ n ∧ n < RAM_END/4096 := inside
      refine ⟨by omega,?_⟩
      rw [launch.booted.upper n (by omega),identity,if_pos ⟨low,high⟩]
      exact (identityLeaf_spec (by omega)).1
    · exact absurd device other
    · obtain ⟨low,high⟩ : USER_CODE_BASE/4096 ≤ n ∧ n < USER_CODE_BASE/4096+Eager.pageUp (progLen (narrow spare)) := inside
      rw [len] at high
      exact ⟨by omega,users n (by omega)⟩
    · have here : n = USER_STACK_PAGE/4096 := top
      exact ⟨by omega,users n (by omega)⟩
  have table : ∀ n ∈ bootPages (progLen (narrow spare)), n ≠ devicePage →
      (g.tree r).l1 (n/512) ≠ none ∧ (g.tree r).l2 (n/512/512) ≠ none := by
    intro n inside other
    obtain ⟨low,valid⟩ := present n inside other
    obtain ⟨b,found⟩ := tree.leaf_table low valid
    obtain ⟨a,parent⟩ := tree.l1_parent (by omega) found
    exact ⟨by rw [found]; simp,by rw [parent]; simp⟩
  have device : devicePage = 65536 := rfl
  have top : USER_STACK_PAGE/4096 ∈ bootPages (progLen (narrow spare)) := .inr rfl
  have short : missing g r (bootPages (progLen (narrow spare))) ≤ 1 := by
    have tops : lacking 512 (fun v => ∃ n ∈ bootPages (progLen (narrow spare)), n/512/512 = v) (g.tree r).l2 = 0 := by
      refine lacking_zero ?_
      rintro v ⟨n,inside,rfl⟩
      by_cases same : n = devicePage
      · rw [same,device]
        exact (table _ top (by omega)).2
      · exact (table n inside same).2
    have mids : lacking (2^18) (fun i => ∃ n ∈ bootPages (progLen (narrow spare)), n/512 = i) (g.tree r).l1 ≤
        ({128} : Finset Nat).card := by
      refine lacking_among ?_
      rintro v ⟨n,inside,rfl⟩ absent
      by_cases same : n = devicePage
      · rw [same,device]
        decide
      · exact absurd absent (table n inside same).1
    rw [Finset.card_singleton] at mids
    unfold missing
    omega
  have cost := sample_cost
  have ram : RAM_END = 0x88000*4096 := rfl
  have paid := launch.paid
  have same := narrow_cost spare
  rw [narrow_base spare,same] at paid
  have stage := launch_stage launch booted
  have spared : spare ≤ room g := by omega
  refine ⟨_,_,g,initProcess r s,booted,⟨stage.run,stage.user,stage.procs,spared.trans stage.room⟩,launched_init _ r s m,rfl,
    by omega,?_⟩
  · have pages : ∀ n, n = 16 ∨ n = 258048 → n ∈ leafPages g r := fun n which => ⟨by omega,users n which⟩
    have tops := @lacking_ge 512 (fun v => ∃ n ∈ leafPages g r, n/512/512 = v) {0} (by
      intro v member
      rw [Finset.mem_singleton] at member
      exact ⟨by omega,16,pages 16 (.inl rfl),by omega⟩)
    have mids := @lacking_ge (2^18) (fun i => ∃ n ∈ leafPages g r, n/512 = i) {0,504} (by
      intro v member
      rw [Finset.mem_insert,Finset.mem_singleton] at member
      rcases member with rfl | rfl
      · exact ⟨by omega,16,pages 16 (.inl rfl),by omega⟩
      · exact ⟨by omega,258048,pages 258048 (.inr rfl),by omega⟩)
    rw [Finset.card_singleton] at tops
    rw [show ({0,504} : Finset Nat).card = 2 by decide] at mids
    unfold tablesFor
    exact Nat.add_le_add tops mids

/-- The first fork of init on a machine that can pay for a root and a kernel stack, but not for the tables. -/
theorem narrow_fork : ∃ o k g me k', Reachable (narrow 9) WaitsWell k ∧ InUser false o k g ∧ runner k = some me ∧
    me.state = .Running ∧ emptySlot (procs k).slots = some 1 ∧ step (callEvent 220 []) k = .user k' ∧
    ¬ FitsAll g me.page_table.root := by
  obtain ⟨o,k,g,me,booted,stage,running,awake,few,many⟩ := @narrow_stage 9 (by omega)
  have calls : Calls (callEvent 220 []) SYS_FORK := callEvent_calls _ _
  have slot : emptySlot (procs k).slots = some 1 := by
    rw [stage.procs]
    decide +kernel
  have fits := stackFits_above stage.user.inv.good stage.room
  have eight : KERNEL_STACK_PAGES = 8 := rfl
  rcases fork_cases stage.user running awake calls with ⟨⟨k',run⟩,_⟩ | ⟨_,_,short⟩
  · refine ⟨o,k,g,me,k',.boot booted,stage.user,running,awake,slot,run,?_⟩
    unfold FitsAll
    omega
  · exact absurd fits short

/-- A fork that reports a child with pages missing. -/
theorem fork_incomplete : ∃ k me k' child, Reachable (narrow 9) WaitsWell k ∧ runner k = some me ∧
    step (callEvent 220 []) k = .user k' ∧ k'.process_list 1 = some child ∧
    answer (callEvent 220 []).ctx 8 0 k = some child.pid ∧ ¬ ForkComplete k k' me.page_table child.page_table := by
  obtain ⟨o,k,g,me,k',reached,user,running,awake,free,run,short⟩ := narrow_fork
  have calls : Calls (callEvent 220 []) SYS_FORK := callEvent_calls _ _
  obtain ⟨child,slot,result,_,complete⟩ := fork_reports user running awake calls (by simp) run free
  refine ⟨k,me,k',child,reached,running,run,slot,result,?_⟩
  rw [complete,forkFitsAll_iff user.inv.good me.page_table (user.inv.link.root running (by rw [awake]; simp))]
  exact short

theorem fork_complete_iff_at_first : ∃ k me k' child, Reachable (narrow 9) WaitsWell k ∧ runner k = some me ∧
    k'.process_list 1 = some child ∧
    (ForkComplete k k' me.page_table child.page_table ↔ ForkFitsAll k.mm me.page_table) := by
  obtain ⟨o,k,g,me,k',reached,user,running,awake,free,run,_⟩ := narrow_fork
  obtain ⟨child,slot,_,_,complete⟩ := fork_complete_iff reached running ⟨rfl,by decide⟩ run free
  exact ⟨k,me,k',child,reached,running,slot,complete⟩

end Unit00.Exhaustion
