import Unit00.Deaths

/-!
Rounds of fork, exit and wait. A reaped child gives its kernel stack back frame by
frame, but the stack of the next child is taken from above the bump pointer, which
never moves back. So every round costs a stack for good: a round succeeds exactly
when there is room above the pointer and frames for the tables of the child's code,
and no machine has room for all of them.
-/
namespace Unit00.Rounds
open Unit00.Memory Unit00.Execution Unit00.Frame Unit00.Paging Unit00.Paging.PTEntry Unit00.Trees Unit00.Ownership
open Unit00.Mirror Unit00.Space Unit00.Pages Unit00.Ranges Unit00.Clearing Unit00.Forking Unit00.Access Unit00.Mmu
open Unit00.Task Unit00.Scheduler Unit00.Syscall Unit00.Machine Unit00.Lifecycle Unit00.Steps Unit00.Invariant
open Unit00.Services Unit00.Traps Unit00.View Unit00.Boot Unit00.Runs Unit00.Progress Unit00.Stages Unit00.Deaths
open Unit00.Eager (Pages pageUp)

/-! ### Rounds -/

/-- The running process can fetch the four bytes of its call. -/
def Fetches (k : Kernel) (e : Event) : Prop :=
  ∀ b, b < 4 → (translate k.hart k.mm.mem .user .fetch (e.ctx.pc.toNat+b)).isSome = true

/-- The running process fetches its call, and the kernel comes back from it. -/
def Executes (e : Event) (k k' : Kernel) : Prop := Fetches k e ∧ step e k = .user k'

/-- The calls of a round, from the program of init: init forks, waits until the child runs, the child exits, and the wait
    goes on. -/
structure Asks (k : Kernel) (e1 e2 e3 e4 : Event) : Prop where
  forks : Calls e1 SYS_FORK
  waits : Calls e2 SYS_WAIT ∧ argument e2 0 = 0
  exits : Calls e3 SYS_EXIT ∨ Calls e3 SYS_EXIT_GROUP
  reaps : Calls e4 SYS_WAIT ∧ argument e4 0 = 0
  program : Fetches k e1 ∧ Fetches k e2 ∧ Fetches k e3 ∧ Fetches k e4

/-- The round succeeds: fork returns the pid of a child, the child runs and exits, and wait returns that pid. -/
def RoundBy (e1 e2 e3 e4 : Event) (k k' : Kernel) : Prop :=
  ∃ k1 k2 k3 child, Executes e1 k k1 ∧ answer e1.ctx 8 0 k = some child.pid ∧ Executes e2 k1 k2 ∧
    runner k2 = some child ∧ Executes e3 k2 k3 ∧ Executes e4 k3 k' ∧ answer e4.ctx 8 0 k3 = some child.pid

/-- The states after a number of rounds from boot, all of which succeeded. -/
inductive AfterRounds (cfg : Config) : Nat → Kernel → Prop
  | boot {k : Kernel} (run : boot cfg = .user k) : AfterRounds cfg 0 k
  | round {n : Nat} {k k' : Kernel} {e1 e2 e3 e4 : Event} (before : AfterRounds cfg n k) (asks : Asks k e1 e2 e3 e4)
      (done : RoundBy e1 e2 e3 e4 k k') : AfterRounds cfg (n+1) k'

/-- There is room for the root and the kernel stack of a child, and for the two tables of its code. -/
def RoundFits (m : Mm) : Prop := StackFits m ∧ KERNEL_STACK_PAGES+3 ≤ freeFrames m

theorem RoundBy.unique {e1 e2 e3 e4 : Event} {k a b : Kernel} (first : RoundBy e1 e2 e3 e4 k a)
    (second : RoundBy e1 e2 e3 e4 k b) : a = b := by
  obtain ⟨k1,k2,k3,_,⟨_,run1⟩,_,⟨_,run2⟩,_,⟨_,run3⟩,⟨_,run4⟩,_⟩ := first
  obtain ⟨l1,l2,l3,_,⟨_,go1⟩,_,⟨_,go2⟩,_,⟨_,go3⟩,⟨_,go4⟩,_⟩ := second
  rw [run1] at go1
  cases go1
  rw [run2] at go2
  cases go2
  rw [run3] at go3
  cases go3
  rw [run4] at go4
  cases go4
  rfl

/-! ### What a program can fetch -/

/-- A call at this address can be fetched from the pages. -/
def Runs (s : Pages) (pc : Nat) : Prop :=
  ∀ b, b < 4 → canonical (pc+b) = true ∧ ∃ p, s (pageOf (pc+b)) = some p ∧ p.executable = true

/-- No page can be both written and run. -/
def Fixed (s : Pages) : Prop := ∀ n p, s n = some p → p.executable = true → p.writable = false

theorem Runs.congr {s t : Pages} {pc : Nat} (runs : Runs s pc) (same : ∀ n p, s n = some p → p.executable = true → t n = s n) :
    Runs t pc := by
  intro b four
  obtain ⟨fits,p,page,executable⟩ := runs b four
  exact ⟨fits,p,(same _ p page executable).trans page,executable⟩

/-- The code of init can be run, and it is all that can be run. -/
theorem initial_code {s : Pages} {count : Nat} (initial : Initial s count) {n : Nat} {p : Eager.Page} (page : s n = some p)
    (executable : p.executable = true) : p.writable = false ∧ n < USER_CODE_BASE/4096+count := by
  have other : n ≠ USER_STACK_PAGE/4096 := by
    rintro rfl
    rw [(initial.stack p page).2.2] at executable
    cases executable
  have there := (initial.there n).mp (by rw [page]; rfl)
  exact ⟨(initial.code n p other page).2.1,by omega⟩

theorem fetches_iff {exact : Bool} {o : Origin} {k : Kernel} {g : Ledger} {me : Process} (user : InUser exact o k g)
    (running : k.process_list k.current = some me) (awake : me.state = .Running) (fixed : Fixed (pagesOf k.mm me.page_table))
    (e : Event) : Fetches k e ↔ Runs (pagesOf k.mm me.page_table) e.ctx.pc.toNat := by
  have good := user.inv.good
  have isRoot := me_root user running awake
  have home := user.home _ running
  rw [pagesOf_eq good _ isRoot] at fixed ⊢
  refine forall_congr' fun b => imp_congr_right fun _ => ?_
  constructor
  · intro reached
    obtain ⟨pa,passes⟩ := Option.isSome_iff_exists.mp reached
    obtain ⟨d,leaf,permitted,_,_⟩ := translate_user good isRoot home passes
    have page := @space_low k.mm g me.page_table.root _ (good.sound.low leaf)
    rw [leaf.entry,pageAt_user leaf.valid leaf.user] at page
    rw [permits,Bool.and_eq_true] at permitted
    refine ⟨?_,_,page,permitted.1⟩
    by_contra far
    rw [Mmu.translate,if_neg far] at passes
    cases passes
  · rintro ⟨fits,p,page,executable⟩
    have plain := fixed _ p page executable
    obtain ⟨low,leaf⟩ := space_leaf isRoot page
    rw [space_low low,pageAt_user leaf.valid leaf.user,Option.some.injEq] at page
    rw [← page] at executable plain
    dsimp only at executable plain
    rw [Bool.or_eq_false_iff] at plain
    rw [translate_leaf good home leaf,permits,if_pos]
    · rfl
    · simp [fits,plain.2,executable,leaf.user]

/-! ### The process table during a round -/

/-- A search for the only slot of its kind finds it. -/
theorem nextSlot_only {s : Slots} {cur i : Fin MAX_PROCESSES} (here : readySlot s i = true)
    (only : ∀ j, readySlot s j = true → j = i) : nextSlot s cur = some i := by
  unfold nextSlot
  cases found : ((List.range' 1 MAX_PROCESSES).map fun i =>
      (⟨(cur.val+i)%MAX_PROCESSES,Nat.mod_lt _ (by decide)⟩ : Fin MAX_PROCESSES)).find? (readySlot s) with
  | some j => rw [only j (List.find?_some found)]
  | none =>
    refine absurd here (List.find?_eq_none.mp found i (List.mem_map.mpr ?_))
    have small := i.isLt
    have small' := cur.isLt
    simp only [MAX_PROCESSES] at small small'
    refine ⟨(i.val+31-cur.val)%32+1,by rw [List.mem_range'_1]; simp only [MAX_PROCESSES]; omega,Fin.ext ?_⟩
    simp only [MAX_PROCESSES]
    omega

theorem zombieSlot_only {s : Slots} {pid code : Nat} {i : Fin MAX_PROCESSES} {h : Header} (here : s i = some h)
    (mine : h.parent_pid = pid) (dead : h.state = .Zombie code)
    (only : ∀ j h, s j = some h → Zombie h → j = i) : zombieSlot s pid = some i := by
  cases found : zombieSlot s pid with
  | some j =>
    unfold zombieSlot at found
    have dies := List.find?_some found
    cases slot : s j with
    | none => simp [slot] at dies
    | some d =>
      refine congrArg some (only j d slot ?_)
      simp only [slot,Bool.and_eq_true] at dies
      cases state : d.state with
      | Zombie c => exact ⟨c,state⟩
      | Ready => simp [state] at dies
      | Running => simp [state] at dies
      | Blocked => simp [state] at dies
      | Gone => simp [state] at dies
  | none =>
    unfold zombieSlot at found
    have all := List.find?_eq_none.mp found i (List.mem_finRange i)
    simp [here,mine,dead] at all

theorem zombieSlot_none {s : Slots} {pid : Nat} (none : ∀ j h, s j = some h → ¬ Zombie h) : zombieSlot s pid = Option.none := by
  unfold zombieSlot
  rw [List.find?_eq_none]
  intro j _ dies
  cases slot : s j with
  | none => simp [slot] at dies
  | some d =>
    refine none j d slot ?_
    simp only [slot,Bool.and_eq_true] at dies
    cases state : d.state with
    | Zombie c => exact ⟨c,state⟩
    | Ready => simp [state] at dies
    | Running => simp [state] at dies
    | Blocked => simp [state] at dies
    | Gone => simp [state] at dies

/-- Init runs, and no other process is left. -/
structure Alone (s : System) : Prop where
  init : s.slots s.current = some ⟨1,0,.Running⟩
  rest : ∀ i h, i ≠ s.current → s.slots i = some h → h.state = .Gone
  fresh : 2 ≤ s.next_pid

/-- Init runs, and its only child is in a slot. -/
structure Paired (s : System) (i : Fin MAX_PROCESSES) (init child : Header) (cur : Fin MAX_PROCESSES) : Prop where
  apart : i ≠ cur
  init : s.slots cur = some init
  child : s.slots i = some child
  rest : ∀ j h, j ≠ cur → j ≠ i → s.slots j = some h → h.state = .Gone

section
variable {s : System} {i cur : Fin MAX_PROCESSES} {init child : Header}

/-- A slot of a table of two is one of them, or nothing is left in it. -/
theorem Paired.cases (paired : Paired s i init child cur) {j : Fin MAX_PROCESSES} {h : Header} (slot : s.slots j = some h) :
    (j = cur ∧ h = init) ∨ (j = i ∧ h = child) ∨ h.state = .Gone := by
  by_cases first : j = cur
  · rw [first,paired.init,Option.some.injEq] at slot
    exact .inl ⟨first,slot.symm⟩
  by_cases second : j = i
  · rw [second,paired.child,Option.some.injEq] at slot
    exact .inr (.inl ⟨second,slot.symm⟩)
  · exact .inr (.inr (paired.rest j h first second slot))

/-- Next to init there is room for a child. -/
theorem Alone.free (alone : Alone s) : ∃ i, emptySlot s.slots = some i ∧ i ≠ s.current := by
  cases found : emptySlot s.slots with
  | some i =>
    refine ⟨i,rfl,?_⟩
    rintro rfl
    have gone := emptySlot_gone found alone.init
    cases gone
  | none =>
    exfalso
    obtain ⟨j,other⟩ : ∃ j : Fin MAX_PROCESSES, j ≠ s.current := by
      by_cases zero : s.current = 0
      · exact ⟨1,by rw [zero]; decide⟩
      · exact ⟨0,fun same => zero same.symm⟩
    have taken := List.find?_eq_none.mp found j (List.mem_finRange j)
    cases slot : s.slots j with
    | none => simp [slot] at taken
    | some h => simp [slot,alone.rest j h other slot] at taken

end

/-! ### What a fork pays for the code of the child -/

theorem lacking_lt {bound : Nat} {wanted : Nat → Prop} {t : Nat → Option Nat} {v : Nat} (low : v < bound) (want : wanted v)
    (there : t v ≠ none) : lacking bound wanted t < lacking bound wanted fun _ => none := by
  classical
  unfold lacking
  refine Finset.card_lt_card (Finset.ssubset_iff_of_subset ?_ |>.mpr ⟨v,?_,?_⟩)
  · intro u member
    rw [Finset.mem_filter] at member ⊢
    exact ⟨member.1,member.2.1,rfl⟩
  · exact Finset.mem_filter.mpr ⟨Finset.mem_range.mpr low,want,rfl⟩
  · exact fun member => there (Finset.mem_filter.mp member).2.2

/-- The pages that the first table of level zero maps need two tables. -/
theorem tablesFor_low {S : Set Nat} (low : ∀ n ∈ S, n < 512) : tablesFor S ≤ 2 := by
  have tops : lacking 512 (fun v => ∃ n ∈ S, n/512/512 = v) (fun _ => none) ≤ ({0} : Finset Nat).card := by
    refine lacking_le ?_
    rintro v _ ⟨n,inside,rfl⟩
    have := low n inside
    exact Finset.mem_singleton.mpr (by omega)
  have mids : lacking (2^18) (fun i => ∃ n ∈ S, n/512 = i) (fun _ => none) ≤ ({0} : Finset Nat).card := by
    refine lacking_le ?_
    rintro v _ ⟨n,inside,rfl⟩
    have := low n inside
    exact Finset.mem_singleton.mpr (by omega)
  rw [Finset.card_singleton] at tops mids
  unfold tablesFor
  omega

section
variable {exact : Bool} {base r c s : Nat} {m m' : Mm} {g g' : Ledger}

/-- A child has the low pages of its parent when there are frames for two tables. -/
theorem Forked.low_copied (forked : Forked exact base r c s m m' g g') (enough : KERNEL_STACK_PAGES+3 ≤ room g) (isRoot : g.own r = .root)
    {n : Nat} (low : n < 512) : space m' g' c n = space m g r n := by
  rcases forked.pages n with same | ⟨gone,_⟩
  · exact same
  cases page : space m g r n with
  | none => rw [gone]
  | some p =>
    obtain ⟨_,leaf⟩ := space_leaf isRoot page
    have few : tablesFor { j | j ≤ n ∧ j ∈ userPages g r } ≤ 2 := tablesFor_low fun j inside => Nat.lt_of_le_of_lt inside.1 low
    have copied := forked.reached n _ leaf (by omega)
    rw [space_low (by omega),copied,pageAt_user (by rw [sharedEntry_valid]; exact leaf.valid)
      (by rw [sharedEntry_u]; exact leaf.user)] at gone
    cases gone

/-- A child with a low page has got two tables for it. -/
theorem Forked.low_paid (forked : Forked exact base r c s m m' g g') (isRoot : g.own r = .root) {n : Nat} (low : n < 512)
    (there : (space m' g' c n).isSome = true) : KERNEL_STACK_PAGES+3 ≤ room g := by
  obtain ⟨p,page⟩ := Option.isSome_iff_exists.mp there
  have isChild : g'.own c = .root := (forked.roots c).mpr (.inr rfl)
  have tree := forked.good.mirrors.tables.tree c isChild
  obtain ⟨_,leafC⟩ := space_leaf isChild page
  obtain ⟨b,table⟩ := tree.leaf_table (show n < 2^27 by omega) leafC.valid
  obtain ⟨a,parent⟩ := tree.l1_parent (by omega) table
  have inside : n ∈ leafPages g r := by
    have same : space m g r n = some p := by
      rcases forked.pages n with same | ⟨gone,_⟩
      · exact same.symm.trans page
      · rw [gone] at page
        cases page
    obtain ⟨high,leaf⟩ := space_leaf isRoot same
    exact ⟨high,leaf.valid⟩
  have tops : lacking 512 (fun v => ∃ n ∈ leafPages g r, n/512/512 = v) (g'.tree c).l2 <
      lacking 512 (fun v => ∃ n ∈ leafPages g r, n/512/512 = v) fun _ => none :=
    lacking_lt (show n/512/512 < 512 by omega) ⟨n,inside,rfl⟩ (by rw [parent]; simp)
  have mids : lacking (2^18) (fun i => ∃ n ∈ leafPages g r, n/512 = i) (g'.tree c).l1 <
      lacking (2^18) (fun i => ∃ n ∈ leafPages g r, n/512 = i) fun _ => none :=
    lacking_lt (show n/512 < 2^18 by omega) ⟨n,inside,rfl⟩ (by rw [table]; simp)
  have paid := forked.paid
  unfold missing tablesFor at paid
  omega

end

/-! ### The steps of a round -/

/-- The process in a slot has the pages. -/
def HasPages (k : Kernel) (i : Fin MAX_PROCESSES) (s : Pages) : Prop :=
  ∃ p, k.process_list i = some p ∧ pagesOf k.mm p.page_table = s

section
variable {o : Origin} {k k' : Kernel} {g : Ledger} {e : Event} {i cur : Fin MAX_PROCESSES} {pid : Nat}

/-- The kernel stack of a child lies above what was taken before. -/
theorem Forked.stack_above {exact : Bool} {base r c s : Nat} {m m' : Mm} {g g' : Ledger} (forked : Forked exact base r c s m m' g g') :
    g.next+KERNEL_STACK_SIZE ≤ g'.next := by
  have fresh := forked.fresh_stack
  have eight : KERNEL_STACK_PAGES = 8 := rfl
  have size : KERNEL_STACK_SIZE = 8*4096 := rfl
  have page : PAGE_SIZE = 4096 := rfl
  have held : g'.own (s+7*PAGE_SIZE) = .stack s := (forked.stack _ _).mpr (.inr ⟨rfl,7,by omega,rfl⟩)
  have pool := forked.good.mirrors.pool
  obtain ⟨aligned,_,below⟩ := (pool.owned _).mp (show g'.own (s+7*PAGE_SIZE) ≠ .none by rw [held]; simp)
  have whole := pool.next_aligned
  omega

theorem round_forks (user : InUser false o k g) (alone : Alone (procs k)) (calls : Calls e SYS_FORK) (fits : StackFits k.mm)
    {s : Pages} (pages : HasPages k k.current s) :
    ∃ k1 g1 i c, step e k = .user k1 ∧ InUser false o k1 g1 ∧ answer e.ctx 8 0 k = some k.next_pid ∧
      Paired (procs k1) i ⟨1,0,.Running⟩ ⟨k.next_pid,1,.Ready⟩ k.current ∧ k1.current = k.current ∧
      k1.next_pid = k.next_pid+1 ∧ g.next+KERNEL_STACK_SIZE ≤ g1.next ∧ HasPages k1 k.current s ∧ HasPages k1 i c ∧
      (∀ n, c n = s n ∨ c n = none) ∧ (KERNEL_STACK_PAGES+3 ≤ room g → ∀ n, n < 512 → c n = s n) ∧
      ∀ n, n < 512 → (c n).isSome = true → KERNEL_STACK_PAGES+3 ≤ room g := by
  obtain ⟨me,running,same⟩ := slots_inv (show slots k.process_list k.current = some ⟨1,0,.Running⟩ from alone.init)
  have awake : me.state = .Running := congrArg Header.state same
  have pid : me.pid = 1 := congrArg Header.pid same
  obtain ⟨me',running',rfl⟩ := pages
  obtain rfl : me = me' := Option.some.inj (running.symm.trans running')
  have isRoot := me_root user running awake
  obtain ⟨_,_,here,_,before⟩ := entered_inv user running awake e.ctx 8 0
  obtain ⟨i,free,other⟩ := alone.free
  rcases fork_cases user running awake calls with ⟨⟨k1,run⟩,_⟩ | ⟨_,_,short⟩
  · obtain ⟨c,st,mm,g1,forked,user1,made,table,_,_,result,after⟩ := fork_next user running awake calls (by simp) run free
    have isChild : g1.own c = .root := (forked.roots c).mpr (.inr rfl)
    have parent : pagesOf k1.mm me.page_table = pagesOf k.mm me.page_table := by
      have isRoot1 := (forked.roots _).mpr (.inl isRoot)
      rw [pagesOf_eq user1.inv.good _ isRoot1,pagesOf_eq user.inv.good _ isRoot,after _ isRoot1,forked.spaces _ isRoot]
      exact before _ isRoot
    have child : pagesOf k1.mm (forkChild (stopped e.ctx 8 0 me) k.next_pid c st).page_table = space mm g1 c := by
      rw [pagesOf_eq user1.inv.good _ isChild]
      exact after c isChild
    have source : space (entered e.ctx 8 0 k me).mm g me.page_table.root = pagesOf k.mm me.page_table := by
      rw [pagesOf_eq user.inv.good _ isRoot]
      exact before _ isRoot
    refine ⟨k1,g1,i,space mm g1 c,run,user1,result,⟨other,?_,?_,?_⟩,?_,?_,Forked.stack_above forked,⟨stopped e.ctx 8 0 me,?_,parent⟩,
      ⟨_,?_,child⟩,?_,?_,?_⟩
    · rw [made]
      exact (Function.update_of_ne (Ne.symm other) _ _).trans alone.init
    · rw [made,← pid]
      exact Function.update_self ..
    · intro j h notCur notChild slot
      rw [made] at slot
      exact alone.rest j h notCur ((Function.update_of_ne notChild _ _).symm.trans slot)
    · exact congrArg System.current made
    · exact congrArg System.next_pid made
    · rw [table]
      exact (Function.update_of_ne (Ne.symm other) _ _).trans here
    · rw [table]
      exact Function.update_self _ _ _
    · intro n
      rw [← source]
      exact (forked.pages n).imp_right And.left
    · intro enough n low
      rw [← source]
      exact Forked.low_copied forked enough isRoot low
    · exact fun n low there => Forked.low_paid forked isRoot low there
  · exact absurd fits short

/-- A step keeps the pages of a process that does not run. -/
theorem HasPages.bystander {me : Process} (user : InUser false o k g) (running : k.process_list k.current = some me)
    (awake : me.state = .Running) (waits : WaitsWell k e) (run : step e k = .user k') {h : Header} (other : i ≠ k.current)
    (slot : (procs k).slots i = some h) (live : Live h) {s : Pages} (pages : HasPages k i s) : HasPages k' i s := by
  obtain ⟨p,slotP,rfl⟩ := pages
  have same : some h = some (header p) := slot.symm.trans (slots_some slotP)
  rw [Option.some.injEq] at same
  rw [same] at live
  obtain ⟨p',slot',kin,kept⟩ := step_bystander user running awake waits (by simp) run other slotP live
  exact ⟨p',slot',by rw [kin_page_table kin]; exact kept⟩

theorem HasPages.waits {me : Process} (user : InUser false o k g) (running : k.process_list k.current = some me)
    (awake : me.state = .Running) (calls : Calls e SYS_WAIT) (null : argument e 0 = 0) (run : step e k = .user k') {s : Pages}
    (pages : HasPages k k.current s) : HasPages k' k.current s := by
  obtain ⟨p,slot,rfl⟩ := pages
  obtain rfl : me = p := Option.some.inj (running.symm.trans slot)
  obtain ⟨me',slot',table,kept⟩ := null_wait_keeps user running awake calls null (by simp) run
  exact ⟨me',slot',by rw [table]; exact kept⟩

theorem round_waits (user : InUser false o k g) (here : k.current = cur)
    (paired : Paired (procs k) i ⟨1,0,.Running⟩ ⟨pid,1,.Ready⟩ cur) (calls : Calls e SYS_WAIT) (null : argument e 0 = 0)
    {s c : Pages} (pages : HasPages k cur s) (pagesC : HasPages k i c) :
    ∃ k2, step e k = .user k2 ∧ InUser false o k2 g ∧ Paired (procs k2) i ⟨1,0,.Blocked⟩ ⟨pid,1,.Running⟩ cur ∧
      k2.current = i ∧ k2.next_pid = k.next_pid ∧ HasPages k2 cur s ∧ HasPages k2 i c := by
  subst here
  obtain ⟨me,running,same⟩ := slots_inv (show slots k.process_list k.current = some ⟨1,0,.Running⟩ from paired.init)
  have awake : me.state = .Running := congrArg Header.state same
  have clean : zombieSlot (procs k).slots me.pid = none := by
    refine zombieSlot_none fun j h slot dead => ?_
    obtain ⟨code,dead⟩ := dead
    rcases paired.cases slot with ⟨_,rfl⟩ | ⟨_,rfl⟩ | gone
    · cases dead
    · cases dead
    · rw [gone] at dead
      cases dead
  have blocked (j : Fin MAX_PROCESSES) : blockSlots (procs k) (header me) j =
      if j = k.current then some ⟨1,0,.Blocked⟩ else (procs k).slots j := by
    rw [blockSlots,same]
    by_cases mine : j = k.current
    · rw [if_pos mine,mine]
      exact Function.update_self ..
    · rw [if_neg mine]
      exact Function.update_of_ne mine _ _
  have child : blockSlots (procs k) (header me) i = some ⟨pid,1,.Ready⟩ := by
    rw [blocked,if_neg paired.apart]
    exact paired.child
  have picked : nextSlot (blockSlots (procs k) (header me)) k.current = some i := by
    refine nextSlot_only (by simp [readySlot,child]) fun j isReady => ?_
    unfold readySlot at isReady
    rw [blocked] at isReady
    by_cases mine : j = k.current
    · simp [mine] at isReady
    · rw [if_neg mine] at isReady
      cases slot : (procs k).slots j with
      | none => simp [slot] at isReady
      | some h =>
        rcases paired.cases slot with ⟨same,_⟩ | ⟨same,_⟩ | gone
        · exact absurd same mine
        · exact same
        · simp [slot,gone] at isReady
  have pid1 : me.pid = 1 := congrArg Header.pid same
  obtain ⟨k2,run⟩ := wait_blocks user running awake calls clean paired.child pid1.symm (.inl rfl) picked
  obtain ⟨j,next,picked',chosen,made,user2,_⟩ := block_next user running awake calls (waits_null null) (by simp) run clean
    paired.child pid1.symm (.inl rfl)
  rw [picked,Option.some.injEq] at picked'
  subst picked'
  rw [child,Option.some.injEq] at chosen
  subst chosen
  refine ⟨k2,run,user2,⟨paired.apart,?_,?_,?_⟩,congrArg System.current made,congrArg System.next_pid made,
    pages.waits user running awake calls null run,
    pagesC.bystander user running awake (waits_null null) run paired.apart paired.child (.inl rfl)⟩
  · rw [made]
    refine (Function.update_of_ne (Ne.symm paired.apart) _ _).trans ?_
    rw [blocked,if_pos rfl]
  · rw [made]
    exact Function.update_self ..
  · intro j h notCur notChild slot
    rw [made] at slot
    have before := (Function.update_of_ne notChild _ _).symm.trans slot
    rw [blocked,if_neg notCur] at before
    exact paired.rest j h notCur notChild before

theorem round_exits (user : InUser false o k g) (sound : Lifecycle.Sound (procs k)) (here : k.current = i) (fresh : 2 ≤ pid)
    (paired : Paired (procs k) i ⟨1,0,.Blocked⟩ ⟨pid,1,.Running⟩ cur) (exits : Calls e SYS_EXIT ∨ Calls e SYS_EXIT_GROUP)
    {s : Pages} (pages : HasPages k cur s) :
    ∃ k3 g3, step e k = .user k3 ∧ InUser false o k3 g3 ∧
      Paired (procs k3) i ⟨1,0,.Running⟩ ⟨pid,1,.Zombie (argument e 0)⟩ cur ∧ k3.current = cur ∧
      k3.next_pid = k.next_pid ∧ g.next ≤ g3.next ∧ HasPages k3 cur s := by
  subst here
  obtain ⟨me,running,same⟩ := slots_inv (show slots k.process_list k.current = some ⟨pid,1,.Running⟩ from paired.child)
  have awake : me.state = .Running := congrArg Header.state same
  have died (j : Fin MAX_PROCESSES) : dieSlots (procs k) (header me) (argument e 0) j =
      if j = k.current then some ⟨pid,1,.Zombie (argument e 0)⟩ else ((procs k).slots j).map (afterDeath ⟨pid,1,.Running⟩) := by
    rw [dieSlots_eq sound (slots_some running),same]
    rfl
  have woken : dieSlots (procs k) (header me) (argument e 0) cur = some ⟨1,0,.Ready⟩ := by
    rw [died,if_neg (Ne.symm paired.apart),paired.init]
    have orphan : ¬ ((⟨1,0,.Blocked⟩ : Header).parent_pid = pid ∧ (⟨1,0,.Blocked⟩ : Header).state ≠ .Gone) := by
      rintro ⟨zero,_⟩
      have : (0 : Nat) = pid := zero
      omega
    simp only [Option.map_some,afterDeath,adoptHeader,if_neg orphan]
    rfl
  have picked : nextSlot (dieSlots (procs k) (header me) (argument e 0)) k.current = some cur := by
    refine nextSlot_only (by simp [readySlot,woken]) fun j isReady => ?_
    unfold readySlot at isReady
    rw [died] at isReady
    by_cases mine : j = k.current
    · simp [mine] at isReady
    · rw [if_neg mine] at isReady
      cases slot : (procs k).slots j with
      | none => simp [slot] at isReady
      | some h =>
        rcases paired.cases slot with ⟨same,_⟩ | ⟨same,_⟩ | gone
        · exact same
        · exact absurd same mine
        · rw [slot] at isReady
          simp only [Option.map_some,beq_iff_eq] at isReady
          rw [afterDeath_gone.mpr gone] at isReady
          cases isReady
  obtain ⟨k3,run⟩ := exit_goes user running awake exits picked
  obtain ⟨mm,g3,j,next,acts,picked',chosen,made,user3⟩ := exit_next user running awake exits (by simp) run
  rw [picked,Option.some.injEq] at picked'
  subst picked'
  rw [woken,Option.some.injEq] at chosen
  subst chosen
  have waits : WaitsWell k e := fun other => by
    rcases exits with exits | exits
    · exact absurd (exits.2.symm.trans other.2) (by decide)
    · exact absurd (exits.2.symm.trans other.2) (by decide)
  refine ⟨k3,g3,run,user3,⟨paired.apart,?_,?_,?_⟩,congrArg System.current made,congrArg System.next_pid made,acts.aside.next,
    pages.bystander user running awake waits run (Ne.symm paired.apart) paired.init (.inr (.inr rfl))⟩
  · rw [made]
    exact Function.update_self ..
  · rw [made]
    refine (Function.update_of_ne paired.apart _ _).trans ?_
    rw [died,if_pos rfl]
  · intro j h notCur notChild slot
    rw [made] at slot
    have before := (Function.update_of_ne notCur _ _).symm.trans slot
    rw [died,if_neg notChild,Option.map_eq_some_iff] at before
    obtain ⟨old,slotOld,rfl⟩ := before
    exact afterDeath_gone.mpr (paired.rest j old notCur notChild slotOld)

theorem round_reaps (user : InUser false o k g) (here : k.current = cur) {code : Nat}
    (paired : Paired (procs k) i ⟨1,0,.Running⟩ ⟨pid,1,.Zombie code⟩ cur) (fresh : 2 ≤ k.next_pid)
    (calls : Calls e SYS_WAIT) (null : argument e 0 = 0) {s : Pages} (pages : HasPages k cur s) :
    ∃ k4 g4, step e k = .user k4 ∧ InUser false o k4 g4 ∧ Alone (procs k4) ∧ k4.next_pid = k.next_pid ∧
      answer e.ctx 8 0 k = some pid ∧ g.next ≤ g4.next ∧ HasPages k4 k4.current s := by
  subst here
  obtain ⟨me,running,same⟩ := slots_inv (show slots k.process_list k.current = some ⟨1,0,.Running⟩ from paired.init)
  have awake : me.state = .Running := congrArg Header.state same
  have pid1 : me.pid = 1 := congrArg Header.pid same
  have found : zombieSlot (procs k).slots me.pid = some i := by
    refine zombieSlot_only paired.child pid1.symm rfl fun j h slot dead => ?_
    obtain ⟨c,dead⟩ := dead
    rcases paired.cases slot with ⟨_,rfl⟩ | ⟨same,_⟩ | gone
    · cases dead
    · exact same
    · rw [gone] at dead
      cases dead
  obtain ⟨k4,run⟩ := wait_reaps user running awake calls null found
  obtain ⟨child,c,k1,g1,mm,g4,slotC,_,_,serves,freeing,user4,made,result⟩ :=
    reap_next user running awake calls (waits_null null) (by simp) run found
  have pidC : child.pid = pid := by
    have before := paired.child
    rw [show (procs k).slots i = some (header child) from slots_some slotC,Option.some.injEq] at before
    exact congrArg Header.pid before
  have current : k4.current = k.current := congrArg System.current made
  have next : g4.next = g1.next := freeing.next
  refine ⟨k4,g4,run,user4,⟨?_,?_,?_⟩,congrArg System.next_pid made,by rw [result,pidC],by rw [next]; exact serves.aside.next,
    by rw [current]; exact pages.waits user running awake calls null run⟩
  · rw [made]
    exact (Function.update_of_ne (Ne.symm paired.apart) _ _).trans paired.init
  · intro j h notCur slot
    rw [made] at slot notCur
    by_cases child_slot : j = i
    · rw [child_slot] at slot
      have buried := (Function.update_self ..).symm.trans slot
      rw [Option.some.injEq] at buried
      rw [← buried]
    · exact paired.rest j h notCur child_slot ((Function.update_of_ne child_slot _ _).symm.trans slot)
  · rw [made]
    exact fresh

end

/-! ### Whole rounds -/

/-- What holds between two rounds: init is alone with the pages of its program, and the stacks of the rounds so far lie
    below the bump pointer. -/
structure Between (o : Origin) (len n : Nat) (k : Kernel) (g : Ledger) : Prop where
  user : InUser false o k g
  sound : Lifecycle.Sound (procs k)
  alone : Alone (procs k)
  spent : RAM_BASE+n*KERNEL_STACK_SIZE ≤ g.next
  code : ∃ s, HasPages k k.current s ∧ Initial s len
  small : USER_CODE_BASE/4096+len ≤ USER_HEAP_START/4096

theorem sound_after {k k' : Kernel} {e : Event} {me : Process} (running : k.process_list k.current = some me)
    (sound : Lifecycle.Sound (procs k)) (run : step e k = .user k') : Lifecycle.Sound (procs k') := by
  obtain ⟨label,step,_⟩ := step_label running run
  exact Lifecycle.step_sound sound step

theorem HasPages.fetches {o : Origin} {k : Kernel} {g : Ledger} (user : InUser false o k g) {h : Header}
    (slot : (procs k).slots k.current = some h) (awake : h.state = .Running) {s : Pages} (pages : HasPages k k.current s)
    (fixed : Fixed s) (e : Event) : Fetches k e ↔ Runs s e.ctx.pc.toNat := by
  obtain ⟨p,running,rfl⟩ := pages
  have same : some h = some (header p) := slot.symm.trans (slots_some running)
  rw [Option.some.injEq] at same
  rw [same] at awake
  exact fetches_iff user running awake fixed e

section
variable {o : Origin} {len n : Nat} {k : Kernel} {g : Ledger} {e1 e2 e3 e4 : Event}

/-- The child of a round runs, and init waits for it. -/
structure Halfway (o : Origin) (k k1 k2 : Kernel) (g g1 : Ledger) (s c : Pages) (i : Fin MAX_PROCESSES) : Prop where
  user : InUser false o k2 g1
  sound : Lifecycle.Sound (procs k2)
  paired : Paired (procs k2) i ⟨1,0,.Blocked⟩ ⟨k.next_pid,1,.Running⟩ k.current
  here : k2.current = i
  next : k2.next_pid = k.next_pid+1
  above : g.next+KERNEL_STACK_SIZE ≤ g1.next
  pages : HasPages k2 k.current s
  pagesC : HasPages k2 i c
  fewer : ∀ n, c n = s n ∨ c n = none
  copied : KERNEL_STACK_PAGES+3 ≤ room g → ∀ n, n < 512 → c n = s n
  paid : ∀ n, n < 512 → (c n).isSome = true → KERNEL_STACK_PAGES+3 ≤ room g

/-- The first half of a round. -/
theorem Between.half (between : Between o len n k g) (fits : StackFits k.mm) (asks : Asks k e1 e2 e3 e4) {s : Pages}
    (pages : HasPages k k.current s) (initial : Initial s len) :
    ∃ k1 k2 g1 c i, Executes e1 k k1 ∧ answer e1.ctx 8 0 k = some k.next_pid ∧ Executes e2 k1 k2 ∧ Halfway o k k1 k2 g g1 s c i := by
  obtain ⟨user,sound,alone,_,_,_⟩ := between
  have fixed : Fixed s := fun _ _ page executable => (initial_code initial page executable).1
  obtain ⟨me,running,_⟩ := slots_inv (show slots k.process_list k.current = some ⟨1,0,.Running⟩ from alone.init)
  obtain ⟨k1,g1,i,c,run1,user1,result,paired1,here1,next1,above,pages1,pagesC,fewer,copied,paid⟩ :=
    round_forks user alone asks.forks fits pages
  have sound1 := sound_after running sound run1
  have init1 : (procs k1).slots k1.current = some ⟨1,0,.Running⟩ := by
    rw [show (procs k1).slots = _ from rfl,here1]
    exact paired1.init
  have fetched : Fetches k1 e2 := by
    refine (HasPages.fetches user1 init1 rfl (by rw [here1]; exact pages1) fixed e2).mpr ?_
    exact (HasPages.fetches user alone.init rfl pages fixed e2).mp asks.program.2.1
  obtain ⟨k2,run2,user2,paired2,here2,next2,pages2,pagesC2⟩ :=
    round_waits user1 here1 paired1 asks.waits.1 asks.waits.2 pages1 pagesC
  obtain ⟨me1,running1,_⟩ := slots_inv init1
  exact ⟨k1,k2,g1,c,i,⟨asks.program.1,run1⟩,result,⟨fetched,run2⟩,user2,sound_after running1 sound1 run2,paired2,here2,
    next2.trans next1,above,pages2,pagesC2,fewer,copied,paid⟩

/-- A round between two that finds room for the child. -/
theorem Between.round (between : Between o len n k g) (fits : RoundFits k.mm) (asks : Asks k e1 e2 e3 e4) :
    ∃ k' g', RoundBy e1 e2 e3 e4 k k' ∧ Between o len (n+1) k' g' := by
  obtain ⟨s,pages,initial⟩ := between.code
  have fixed : Fixed s := fun _ _ page executable => (initial_code initial page executable).1
  have fresh : 2 ≤ k.next_pid := between.alone.fresh
  have spent := between.spent
  have small := between.small
  have heap : USER_HEAP_START/4096 = 32 := rfl
  obtain ⟨k1,k2,g1,c,i,done1,result1,done2,half⟩ := between.half fits.1 asks pages initial
  have enough : KERNEL_STACK_PAGES+3 ≤ room g := by
    rw [← freeFrames_eq between.user.inv.good.mirrors.pool]
    exact fits.2
  have same : ∀ n p, s n = some p → p.executable = true → c n = s n := fun n p page executable =>
    half.copied enough n (by have := (initial_code initial page executable).2; omega)
  have fixedC : Fixed c := by
    intro n p page executable
    rcases half.fewer n with equal | gone
    · exact fixed n p (equal.symm.trans page) executable
    · rw [gone] at page
      cases page
  have child2 : (procs k2).slots k2.current = some ⟨k.next_pid,1,.Running⟩ := by
    rw [show (procs k2).slots k2.current = (procs k2).slots i by rw [half.here]]
    exact half.paired.child
  obtain ⟨child,running2,same2⟩ := slots_inv child2
  have fetched3 : Fetches k2 e3 := by
    refine (HasPages.fetches half.user child2 rfl (by rw [half.here]; exact half.pagesC) fixedC e3).mpr ?_
    exact ((HasPages.fetches between.user between.alone.init rfl pages fixed e3).mp asks.program.2.2.1).congr same
  obtain ⟨k3,g3,run3,user3,paired3,here3,next3,more3,pages3⟩ :=
    round_exits half.user half.sound half.here fresh half.paired asks.exits half.pages
  have sound3 := sound_after running2 half.sound run3
  have init3 : (procs k3).slots k3.current = some ⟨1,0,.Running⟩ := by
    rw [show (procs k3).slots k3.current = (procs k3).slots k.current by rw [here3]]
    exact paired3.init
  have fetched4 : Fetches k3 e4 := by
    refine (HasPages.fetches user3 init3 rfl (by rw [here3]; exact pages3) fixed e4).mpr ?_
    exact (HasPages.fetches between.user between.alone.init rfl pages fixed e4).mp asks.program.2.2.2
  obtain ⟨me3,running3,_⟩ := slots_inv init3
  have next := half.next
  have above := half.above
  obtain ⟨k4,g4,run4,user4,alone4,next4,result4,more4,pages4⟩ :=
    round_reaps user3 here3 paired3 (by omega) asks.reaps.1 asks.reaps.2 pages3
  have pid : child.pid = k.next_pid := congrArg Header.pid same2
  refine ⟨k4,g4,⟨k1,k2,k3,child,done1,by rw [result1,pid],done2,running2,⟨fetched3,run3⟩,⟨fetched4,run4⟩,by rw [result4,pid]⟩,
    user4,sound_after running3 sound3 run4,alone4,?_,⟨s,pages4,initial⟩,small⟩
  rw [Nat.succ_mul]
  omega

/-- A round that succeeds had room for its child. -/
theorem Between.room (between : Between o len n k g) (asks : Asks k e1 e2 e3 e4) {k' : Kernel}
    (done : RoundBy e1 e2 e3 e4 k k') : RoundFits k.mm := by
  obtain ⟨s,pages,initial⟩ := between.code
  have fixed : Fixed s := fun _ _ page executable => (initial_code initial page executable).1
  have small := between.small
  have heap : USER_HEAP_START/4096 = 32 := rfl
  obtain ⟨me,running,same⟩ := slots_inv (show slots k.process_list k.current = some ⟨1,0,.Running⟩ from between.alone.init)
  obtain ⟨j,free,_⟩ := between.alone.free
  obtain ⟨l1,l2,_,_,⟨_,go1⟩,_,⟨_,go2⟩,_,⟨fetched,_⟩,_⟩ := done
  have fits : StackFits k.mm := by
    rcases fork_cases between.user running (congrArg Header.state same) asks.forks with ⟨_,full | fits⟩ | ⟨⟨_,_,_,halted⟩,_⟩
    · rw [full] at free
      cases free
    · exact fits
    · rw [go1] at halted
      cases halted
  obtain ⟨k1,k2,g1,c,i,⟨_,run1⟩,_,⟨_,run2⟩,half⟩ := between.half fits asks pages initial
  rw [go1] at run1
  cases run1
  rw [go2] at run2
  cases run2
  have fixedC : Fixed c := by
    intro n p page executable
    rcases half.fewer n with equal | gone
    · exact fixed n p (equal.symm.trans page) executable
    · rw [gone] at page
      cases page
  have child2 : (procs l2).slots l2.current = some ⟨k.next_pid,1,.Running⟩ := by
    rw [show (procs l2).slots l2.current = (procs l2).slots i by rw [half.here]]
    exact half.paired.child
  -- The page of the call of the child is one of the code.
  have runs := (HasPages.fetches half.user child2 rfl (by rw [half.here]; exact half.pagesC) fixedC e3).mp fetched
  obtain ⟨_,p,page,executable⟩ := runs 0 (by omega)
  have source : s (pageOf (e3.ctx.pc.toNat+0)) = some p := by
    rcases half.fewer (pageOf (e3.ctx.pc.toNat+0)) with equal | gone
    · exact equal.symm.trans page
    · rw [gone] at page
      cases page
  have low := (initial_code initial source executable).2
  refine ⟨fits,?_⟩
  rw [freeFrames_eq between.user.inv.good.mirrors.pool]
  exact half.paid (pageOf (e3.ctx.pc.toNat+0)) (by omega) (by rw [page]; rfl)

end

theorem boot_between {cfg : Config} {k : Kernel} (run : boot cfg = .user k) : ∃ o g, Between o (pageUp (progLen cfg)) 0 k g := by
  obtain ⟨r,s,m,g,rfl,launch⟩ := boot_launch false run
  have user := launch.user
  refine ⟨_,g,user,reachable_sound (.boot run : Reachable cfg (fun _ _ => True) _),⟨?_,?_,?_⟩,?_,?_,launch.fits⟩
  · rw [boot_procs run]
    simp
  · intro i h other slot
    rw [boot_procs run] at other slot
    dsimp only at other slot
    rw [Function.update_of_ne other] at slot
    cases slot
  · rw [boot_procs run]
  · have pool := user.inv.good.mirrors.pool
    have low := pool.low
    have order := pool.order
    omega
  · have slot := launched_init cfg r s m
    refine ⟨_,⟨_,slot,rfl⟩,?_⟩
    rw [pagesOf_eq user.inv.good _ (user.inv.link.root slot (by rw [show (initProcess r s).state = .Running from rfl]; simp))]
    exact launch.initial

theorem rounds_between {cfg : Config} {n : Nat} {k : Kernel} (rounds : AfterRounds cfg n k) :
    ∃ o g, Between o (pageUp (progLen cfg)) n k g := by
  induction rounds with
  | boot run => exact boot_between run
  | round before asks done ih =>
    obtain ⟨o,g,between⟩ := ih
    obtain ⟨k',g',done',between'⟩ := between.round (between.room asks done) asks
    rw [done.unique done']
    exact ⟨o,g',between'⟩

/-- The registers with which the sample program asks for the calls of a round. -/
theorem sample_asks {n : Nat} {k : Kernel} (rounds : AfterRounds (sample true) n k) :
    Asks k (callEvent 220 []) (callEvent 260 []) (callEvent 93 []) (callEvent 260 []) := by
  obtain ⟨o,g,between⟩ := rounds_between rounds
  obtain ⟨s,pages,initial⟩ := between.code
  have len : pageUp (progLen (sample true)) = 1 := by decide
  have code : USER_CODE_BASE/4096 = 16 := rfl
  have stack : USER_STACK_PAGE/4096 = 258048 := rfl
  have fixed : Fixed s := fun _ _ page executable => (initial_code initial page executable).1
  have fetches (number : BitVec 64) : Fetches k (callEvent number []) := by
    refine (HasPages.fetches between.user between.alone.init rfl pages fixed _).mpr fun b four => ?_
    obtain ⟨p,page⟩ := Option.isSome_iff_exists.mp ((initial.there 16).mpr (.inl (by omega)))
    have here : pageOf ((callEvent number []).ctx.pc.toNat+b) = 16 := by
      rw [show (callEvent number []).ctx.pc.toNat = 0x10000 from rfl]
      unfold pageOf
      omega
    have fits : canonical ((callEvent number []).ctx.pc.toNat+b) = true := by
      rw [show (callEvent number []).ctx.pc.toNat = 0x10000 from rfl]
      unfold canonical
      rw [Bool.or_eq_true,decide_eq_true_eq]
      omega
    exact ⟨fits,p,by rw [here]; exact page,(initial.code 16 p (by omega) page).2.2⟩
  exact ⟨callEvent_calls _ _,⟨callEvent_calls _ _,by decide⟩,.inl (callEvent_calls _ _),⟨callEvent_calls _ _,by decide⟩,
    fetches _,fetches _,fetches _,fetches _⟩

/-- After any number of rounds the next one succeeds exactly when there is a frame for the root of the child, room above
    the bump pointer for its kernel stack, and frames for the two tables of its code; and every round has moved the
    pointer by a stack. -/
theorem next_round_iff {cfg : Config} {n : Nat} {k : Kernel} (rounds : AfterRounds cfg n k) {e1 e2 e3 e4 : Event}
    (asks : Asks k e1 e2 e3 e4) :
    ((∃ k', RoundBy e1 e2 e3 e4 k k') ↔ RoundFits k.mm) ∧ RAM_BASE+n*KERNEL_STACK_SIZE ≤ k.mm.next_frame := by
  obtain ⟨o,g,between⟩ := rounds_between rounds
  refine ⟨⟨fun ⟨k',done⟩ => between.room asks done,fun fits => ?_⟩,?_⟩
  · obtain ⟨k',_,done,_⟩ := between.round fits asks
    exact ⟨k',done⟩
  · rw [between.user.inv.good.mirrors.pool.next]
    exact between.spent

/-- The sample machine after a round. -/
theorem next_round_iff_after_round : ∃ k e1 e2 e3 e4, AfterRounds (sample true) 1 k ∧ Asks k e1 e2 e3 e4 ∧
    ((∃ k', RoundBy e1 e2 e3 e4 k k') ↔ RoundFits k.mm) ∧ RAM_BASE+1*KERNEL_STACK_SIZE ≤ k.mm.next_frame := by
  obtain ⟨o,k0,g0,_,booted,at0,_⟩ := sample_stage
  have start : AfterRounds (sample true) 0 k0 := .boot booted
  have asks0 := sample_asks start
  have good := at0.user.inv.good
  have enough := at0.room
  have within : above g0 ≤ room g0 := by unfold above room; omega
  have eight : KERNEL_STACK_PAGES = 8 := rfl
  have fits : RoundFits k0.mm := ⟨stackFits_above good (by omega),by rw [freeFrames_eq good.mirrors.pool]; omega⟩
  obtain ⟨_,_,between⟩ := rounds_between start
  obtain ⟨k,_,done,_⟩ := between.round fits asks0
  have first := start.round asks0 done
  have asks := sample_asks first
  exact ⟨k,_,_,_,_,first,asks,next_round_iff first asks⟩

/-- No machine has room for all rounds. -/
theorem rounds_bounded {cfg : Config} {n : Nat} {k : Kernel} (rounds : AfterRounds cfg n k) : n ≤ 4096 := by
  obtain ⟨o,g,between⟩ := rounds_between rounds
  have spent := between.spent
  have high := between.user.inv.good.mirrors.pool.high
  have size : KERNEL_STACK_SIZE = 8*4096 := rfl
  have ram : RAM_END = RAM_BASE+32768*4096 := rfl
  rw [size] at spent
  omega

/-- Some round does not succeed. -/
theorem some_round_fails : ∃ n k e1 e2 e3 e4, AfterRounds (sample true) n k ∧ Asks k e1 e2 e3 e4 ∧
    ¬ ∃ k', RoundBy e1 e2 e3 e4 k k' := by
  by_contra all
  push Not at all
  have every : ∀ n, ∃ k, AfterRounds (sample true) n k := by
    intro n
    induction n with
    | zero =>
      obtain ⟨k,booted⟩ := boot_succeeds (sample_fits true)
      exact ⟨k,.boot booted⟩
    | succ n ih =>
      obtain ⟨k,rounds⟩ := ih
      have asks := sample_asks rounds
      obtain ⟨k',done⟩ := all n k _ _ _ _ rounds asks
      exact ⟨k',rounds.round asks done⟩
  obtain ⟨k,rounds⟩ := every 4097
  have bounded := rounds_bounded rounds
  omega

end Unit00.Rounds
