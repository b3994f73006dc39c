import Unit00.Services

/-!
What one trap does to memory and to the process table. `Handled` says it once
for every way through the trap handler that comes back to user mode; that the
invariant is kept and that the reference system can follow are read off its
cases.
-/
namespace Unit00.Traps
open Unit00.Memory Unit00.Execution Unit00.Frame Unit00.Paging Unit00.Paging.PTEntry Unit00.Trees Unit00.Ownership
open Unit00.Mirror Unit00.Space Unit00.Pages Unit00.Ranges Unit00.Clearing Unit00.Forking Unit00.Access Unit00.Mmu
open Unit00.Task Unit00.Scheduler Unit00.Syscall Unit00.Machine Unit00.Lifecycle Unit00.Steps Unit00.Invariant
open Unit00.Services
open Unit00.Eager (Page Pages Image World)

/-! ### Tables in which only parents and states change -/

/-- The same process with another parent or state, gone now exactly when it was. -/
structure Kin (p q : Process) : Prop where
  same : q = { p with parent_pid := q.parent_pid, state := q.state }
  gone : q.state = .Gone ↔ p.state = .Gone

theorem Kin.refl (p : Process) : Kin p p := ⟨rfl,Iff.rfl⟩

theorem Kin.trans {p q r : Process} (first : Kin p q) (second : Kin q r) : Kin p r := by
  refine ⟨?_,second.gone.trans first.gone⟩
  have equal := second.same
  rw [first.same] at equal
  exact equal

theorem Kin.twin {p q : Process} (kin : Kin p q) (there : p.state ≠ .Gone) : Twin p q := by
  refine ⟨⟨there,fun gone => there (kin.gone.mp gone)⟩,?_,?_,?_⟩ <;> rw [kin.same]

def Shuffled (t t' : Table) : Prop := ∀ i, Option.Rel Kin (t i) (t' i)

theorem Shuffled.refl (t : Table) : Shuffled t t := by
  intro i
  cases t i with
  | none => exact .none
  | some p => exact .some (Kin.refl p)

theorem Shuffled.forth {t t' : Table} (shuffled : Shuffled t t') {i : Fin MAX_PROCESSES} {p : Process} (slot : t i = some p) :
    ∃ q, t' i = some q ∧ Kin p q := by
  have both := shuffled i
  rw [slot] at both
  cases after : t' i with
  | none => rw [after] at both; cases both
  | some q =>
    rw [after] at both
    cases both with
    | some kin => exact ⟨q,rfl,kin⟩

theorem Shuffled.back {t t' : Table} (shuffled : Shuffled t t') {i : Fin MAX_PROCESSES} {q : Process} (slot : t' i = some q) :
    ∃ p, t i = some p ∧ Kin p q := by
  have both := shuffled i
  rw [slot] at both
  cases before : t i with
  | none => rw [before] at both; cases both
  | some p =>
    rw [before] at both
    cases both with
    | some kin => exact ⟨p,rfl,kin⟩

theorem Shuffled.trans {t t' t'' : Table} (first : Shuffled t t') (second : Shuffled t' t'') : Shuffled t t'' := by
  intro i
  cases before : t i with
  | none =>
    cases after : t'' i with
    | none => exact .none
    | some r =>
      obtain ⟨q,slotQ,_⟩ := second.back after
      obtain ⟨p,slotP,_⟩ := first.back slotQ
      rw [before] at slotP
      cases slotP
  | some p =>
    obtain ⟨q,slotQ,kin⟩ := first.forth before
    obtain ⟨r,slotR,kin'⟩ := second.forth slotQ
    rw [slotR]
    exact .some (kin.trans kin')

theorem Shuffled.alike {t t' : Table} (shuffled : Shuffled t t') : Alike t t' := by
  constructor
  · intro i p slot there
    obtain ⟨q,slotQ,kin⟩ := shuffled.forth slot
    exact ⟨q,slotQ,kin.twin there⟩
  · intro i q slot there
    obtain ⟨p,slotP,kin⟩ := shuffled.back slot
    exact ⟨p,slotP,kin.twin fun gone => there (kin.gone.mpr gone)⟩

theorem shuffled_update {t : Table} {i : Fin MAX_PROCESSES} {p q : Process} (slot : t i = some p) (kin : Kin p q) :
    Shuffled t (Function.update t i (some q)) := by
  intro k
  by_cases same : k = i
  · subst same
    rw [slot,Function.update_self]
    exact .some kin
  · rw [Function.update_of_ne same]
    exact Shuffled.refl t k

theorem kin_adopt (cur_pid : Nat) (p : Process) : Kin p (adopt cur_pid p) := by
  unfold adopt
  split
  · exact ⟨rfl,Iff.rfl⟩
  · exact Kin.refl p

theorem shuffled_adopt (t : Table) (cur_pid : Nat) : Shuffled t (mapTable t (adopt cur_pid)) := by
  intro i
  unfold mapTable
  cases t i with
  | none => exact .none
  | some p => exact .some (kin_adopt cur_pid p)

/-- A state that changes for a process that stays. -/
theorem kin_state {p : Process} {state : ProcessState} (there : p.state ≠ .Gone) (stays : state ≠ .Gone) :
    Kin p { p with state } := ⟨rfl,iff_of_false stays there⟩

theorem shuffled_wake (t : Table) (parent_pid : Nat) : Shuffled t (wakeTable t parent_pid) := by
  unfold wakeTable
  cases found : (List.finRange MAX_PROCESSES).find? (waiting parent_pid t) with
  | none => exact Shuffled.refl t
  | some i =>
    have waits := List.find?_some found
    unfold waiting at waits
    cases slot : t i with
    | none => simp [slot] at waits
    | some p =>
      simp only [slot,Bool.and_eq_true,beq_iff_eq] at waits
      dsimp only
      rw [slot]
      exact shuffled_update slot (show Kin p { p with state := .Ready } from kin_state (by rw [waits.2]; simp) (by simp))

section
variable {exact : Bool} {o : Origin} {k k' : Kernel} {g g' : Ledger} {me : Process}

theorem Inv.shuffle (inv : Inv exact o k g) (shuffled : Shuffled k.process_list k'.process_list) (memory : k'.mm = k.mm)
    (zombies : exact = true → ∀ i p code, k'.process_list i = some p → p.state = .Zombie code →
      space k.mm g p.page_table.root = fun _ => none) : Inv exact o k' g := by
  refine ⟨by rw [memory]; exact inv.good,inv.link.alike shuffled.alike,by rw [memory]; exact zombies,
    by rw [memory]; exact inv.half,?_⟩
  intro i q slot
  obtain ⟨p,slotP,kin⟩ := shuffled.back slot
  have bounds := inv.heaps i p slotP
  rw [kin.same]
  exact bounds

/-! ### Switching to another process -/

/-- The stack image of a process is its trap frame. -/
def Synced (k : Kernel) (p : Process) : Prop := trapped k p = p.trap_frame

theorem saved_synced (running : k.process_list k.current = some me) (synced : Synced k me) : saved k me = k := by
  have same : { me with trap_frame := TrapFrame.image k.mm.mem (me.kernel_sp-TrapFrame.SIZE) } = me := by
    have equal : TrapFrame.image k.mm.mem (me.kernel_sp-TrapFrame.SIZE) = me.trap_frame := synced
    rw [equal]
  unfold saved
  dsimp only
  rw [same,← running,Function.update_eq_self]

theorem Inv.resume (inv : Inv exact o k g) {j : Fin MAX_PROCESSES} {next : Process} (slot : k.process_list j = some next)
    (ready : next.state = .Ready) :
    Inv exact o (resumed k j next) g ∧ AtHome (resumed k j next) ∧
      (∀ q, g.own q = .root → space (resumed k j next).mm g q = space k.mm g q) ∧
      trapped (resumed k j next) next = next.trap_frame := by
  have there : next.state ≠ .Gone := by rw [ready]; simp
  obtain ⟨owner,place,_⟩ := inv.link.framePage slot there
  have aligned := (inv.good.mirrors.pool.managed (f := framePage next) (by rw [owner]; simp)).1
  have change : Confined (· = framePage next) k.mm.mem
      (storeWords k.mm.mem (next.kernel_sp-TrapFrame.SIZE) next.trap_frame.words) := by
    rw [place]
    exact confined_words k.mm.mem aligned _
  have shuffled : Shuffled k.process_list (resumed k j next).process_list :=
    shuffled_update slot (kin_state there (by simp))
  have isRoot := inv.link.root slot there
  have first : Inv exact o { k with process_list := (resumed k j next).process_list } g := by
    refine Inv.shuffle inv shuffled rfl fun yes i p code found dead => ?_
    by_cases same : i = j
    · subst same
      simp only [resumed,Function.update_self,Option.some.injEq] at found
      rw [← found] at dead
      cases dead
    · simp only [resumed,Function.update_of_ne same] at found
      exact inv.zombies yes i p code found dead
  refine ⟨first.write_stack owner change rfl rfl,?_,(Invariant.write_stack inv.good owner change).2,image_words _ _ _⟩
  intro p found
  simp only [resumed,Function.update_self,Option.some.injEq] at found
  rw [← found]
  exact root_of_satp (inv.good.mirrors.tables.aligned _ isRoot) (by
    have := inv.good.sound.roots _ isRoot
    have ram : RAM_END = 0x88000000 := rfl
    omega)

/-! ### What a trap may do -/

/-- The process that a fork adds. -/
def forkChild (me : Process) (pid c s : Nat) : Process where
  pid
  parent_pid := me.pid
  state := .Ready
  page_table := { root := c, frame_alloc := alloc_frame }
  trap_frame := child_frame me.trap_frame
  kernel_sp := s+KERNEL_STACK_SIZE
  kernel_stack_frame := s
  heap_start := me.heap_start
  heap_end := me.heap_end
  mmap_areas := me.mmap_areas

/-- The kernel after the running process died with a code, before the scheduler. -/
def ended (k : Kernel) (me : Process) (mm : Mm) (output : List (BitVec 8)) (code : Nat) : Kernel :=
  buried { reparented k me.pid with mm := mm, output := output } (adopt me.pid me) code

/-- The kernel after the running process blocked, before the scheduler. -/
def blocked (k : Kernel) (me : Process) : Kernel :=
  { k with process_list := Function.update k.process_list k.current (some { me with state := .Blocked }) }

/-- The ways through the trap handler that come back to user mode: what the process asked of
    the reference system, the result when it goes on itself, the kernel and the ledger. -/
inductive Handled (exact : Bool) (o : Origin) (k : Kernel) (g : Ledger) (me : Process) :
    Option Eager.Action → Option Nat → Kernel → Ledger → Prop
  | quiet {r : Nat} {k' : Kernel} {g' : Ledger} (serves : Serves exact o.base me k k' g g' (imageOf k.mm g me) k.input) :
      Handled exact o k g me none (some r) k' g'
  | call {number r : Nat} {args : Fin 6 → Nat} {granted : Bool} {k' : Kernel} {g' : Ledger}
      (returns : ¬ (number = SYS_EXIT ∨ number = SYS_EXIT_GROUP)) (not_fork : number ≠ SYS_FORK) (not_wait : number ≠ SYS_WAIT)
      (serves : Serves exact o.base me k k' g g' (Eager.call granted number args (imageOf k.mm g me) k.input).1
        (Eager.call granted number args (imageOf k.mm g me) k.input).2) :
      Handled exact o k g me (some (.call number args)) (some r) k' g'
  | full {args : Fin 6 → Nat} (none : find_empty_slot k.process_list = none) :
      Handled exact o k g me (some (.call SYS_FORK args)) (some (linux_error EAGAIN)) k g
  | fork {args : Fin 6 → Nat} {idx : Fin MAX_PROCESSES} {c s : Nat} {mm : Mm} {g' : Ledger}
      (free : find_empty_slot k.process_list = some idx)
      (forked : Forked exact o.base me.page_table.root c s k.mm mm g g') :
      Handled exact o k g me (some (.call SYS_FORK args)) (some k.next_pid)
        { k with
          mm := mm
          next_pid := k.next_pid+1
          process_list := Function.update k.process_list idx (some (forkChild me k.next_pid c s)) } g'
  | reap {args : Fin 6 → Nat} {idx : Fin MAX_PROCESSES} {child : Process} {code : Nat} {k1 : Kernel} {g1 g' : Ledger} {mm : Mm}
      (slot : k.process_list idx = some child) (mine : child.parent_pid = me.pid) (dead : child.state = .Zombie code)
      (serves : Serves exact o.base me k k1 g g1
        { imageOf k.mm g me with pages := Eager.deliver (args 0) code (space k.mm g me.page_table.root) } k.input)
      (good : Good exact o.base mm g')
      (freeing : Freeing exact o.base k1.mm (retire g1 child.page_table.root)
        (Belongs g1 child.page_table.root child.kernel_stack_frame) mm g')
      (found : (List.finRange MAX_PROCESSES).find? (zombie_child k.process_list me.pid) = some idx) :
      Handled exact o k g me (some (.call SYS_WAIT args)) (some child.pid)
        { k1 with mm := mm, process_list := Function.update k1.process_list idx (some { child with state := .Gone }) } g'
  | childless {args : Fin 6 → Nat}
      (none : ∀ i h, slots k.process_list i = some h → h.parent_pid = me.pid → h.state = .Gone) :
      Handled exact o k g me (some (.call SYS_WAIT args)) (some (linux_error ECHILD)) k g
  | block {args : Fin 6 → Nat} {i j : Fin MAX_PROCESSES} {child : Header} {next : Process}
      (clean : ∀ i h, slots k.process_list i = some h → h.parent_pid = me.pid → ¬ Zombie h)
      (slot : slots k.process_list i = some child) (mine : child.parent_pid = me.pid) (live : Live child)
      (chosen : (blocked k me).process_list j = some next) (ready : next.state = .Ready)
      (picked : pick_next (blocked k me).process_list k.current = some j) :
      Handled exact o k g me (some (.call SYS_WAIT args)) none (resumed (blocked k me) j next) g
  | exit {number : Nat} {args : Fin 6 → Nat} {mm : Mm} {g' : Ledger} {j : Fin MAX_PROCESSES} {next : Process}
      (exits : number = SYS_EXIT ∨ number = SYS_EXIT_GROUP)
      (acts : Acts exact o.base me.page_table.root k.mm mm g g' (fun _ => none))
      (chosen : (ended k me mm k.output (args 0)).process_list j = some next) (ready : next.state = .Ready)
      (picked : pick_next (ended k me mm k.output (args 0)).process_list k.current = some j) :
      Handled exact o k g me (some (.call number args)) none (resumed (ended k me mm k.output (args 0)) j next) g'
  | killed {output : List (BitVec 8)} {j : Fin MAX_PROCESSES} {next : Process} (leaky : exact = false)
      (chosen : (ended k me k.mm output 1).process_list j = some next) (ready : next.state = .Ready)
      (picked : pick_next (ended k me k.mm output 1).process_list k.current = some j) :
      Handled exact o k g me (some .killed) none (resumed (ended k me k.mm output 1) j next) g

/-! ### The invariant -/

/-- Waking changes nothing, or makes a blocked process ready. -/
theorem wakeTable_some {t : Table} {parent_pid : Nat} {i : Fin MAX_PROCESSES} {q : Process}
    (slot : wakeTable t parent_pid i = some q) :
    t i = some q ∨ ∃ p, t i = some p ∧ p.state = .Blocked ∧ q = { p with state := .Ready } := by
  unfold wakeTable at slot
  cases found : (List.finRange MAX_PROCESSES).find? (waiting parent_pid t) with
  | none =>
    rw [found] at slot
    exact .inl slot
  | some j =>
    rw [found] at slot
    dsimp only at slot
    by_cases same : i = j
    · subst same
      have waits := List.find?_some found
      rw [Function.update_self,Option.map_eq_some_iff] at slot
      obtain ⟨p,slotP,equal⟩ := slot
      simp only [waiting,slotP,Bool.and_eq_true,beq_iff_eq] at waits
      exact .inr ⟨p,slotP,waits.2,equal.symm⟩
    · rw [Function.update_of_ne same] at slot
      exact .inl slot

theorem shuffled_ended (running : k.process_list k.current = some me) (there : me.state ≠ .Gone) (mm : Mm)
    (output : List (BitVec 8)) (code : Nat) : Shuffled k.process_list (ended k me mm output code).process_list := by
  have adopted : (reparented k me.pid).process_list k.current = some (adopt me.pid me) := by
    simp [reparented,mapTable,running]
  have stays : (adopt me.pid me).state ≠ .Gone := fun gone => there ((kin_adopt me.pid me).gone.mp gone)
  exact ((shuffled_adopt k.process_list me.pid).trans (shuffled_update adopted (kin_state stays (by simp)))).trans
    (shuffled_wake _ _)

/-- The zombies after a death: the old ones, and the process that died. -/
theorem ended_zombie {mm : Mm} {output : List (BitVec 8)} {code c : Nat} {i : Fin MAX_PROCESSES} {q : Process}
    (slot : (ended k me mm output code).process_list i = some q) (dead : q.state = .Zombie c) :
    i = k.current ∨ ∃ p, k.process_list i = some p ∧ p.state = .Zombie c ∧ p.page_table = q.page_table := by
  have before : Function.update (reparented k me.pid).process_list k.current (some { adopt me.pid me with state := .Zombie code })
      i = some q := by
    rcases wakeTable_some slot with same | ⟨p,_,_,rfl⟩
    · exact same
    · cases dead
  by_cases mine : i = k.current
  · exact .inl mine
  · right
    simp only [reparented,mapTable,Function.update_of_ne mine,Option.map_eq_some_iff] at before
    obtain ⟨p,slotP,rfl⟩ := before
    have kin := kin_adopt me.pid p
    refine ⟨p,slotP,?_,?_⟩
    · rw [← dead]
      unfold adopt
      split <;> rfl
    · rw [kin.same]

theorem Serves.heap {a : Image} {input : Nat → BitVec 8} {base : Nat} (serves : Serves exact base me k k' g g' a input)
    (bound : a.heap_end ≤ USER_HEAP_LIMIT) (me' : Process) (slot : k'.process_list k.current = some me') :
    me'.heap_end ≤ USER_HEAP_LIMIT := by
  obtain ⟨q,slotQ,image⟩ := serves.image
  rw [slot,Option.some.injEq] at slotQ
  have same : q.heap_end = a.heap_end := by rw [← image]; rfl
  rw [slotQ,same]
  exact bound

theorem Serves.home {a : Image} {input : Nat → BitVec 8} {base : Nat} (serves : Serves exact base me k k' g g' a input)
    (running : k.process_list k.current = some me) (home : AtHome k) : AtHome k' := by
  intro q slot
  obtain ⟨p,slotP,same⟩ := serves.kept.mine me running
  rw [serves.kept.current,slotP,Option.some.injEq] at slot
  rw [← slot,same.page_table,serves.kept.hart]
  exact home me running

/-- The invariant after a fork. -/
theorem Inv.forked (inv : Inv exact o k g) (running : k.process_list k.current = some me) (awake : me.state = .Running)
    {idx : Fin MAX_PROCESSES} {c s : Nat} {mm : Mm} (free : find_empty_slot k.process_list = some idx)
    (forked : Forked exact o.base me.page_table.root c s k.mm mm g g') {pid : Nat} (memory : k'.mm = mm)
    (table : k'.process_list = Function.update k.process_list idx (some (forkChild me pid c s))) : Inv exact o k' g' := by
  have isRoot := inv.link.root running (by rw [awake]; simp)
  have link := inv.link.fork forked (fun x held => ((inv.good.mirrors.pool.owned x).mp held).2.2)
    (forkChild me pid c s) (fun p slot => find_empty_slot_some free slot) rfl rfl rfl (by simp [forkChild])
  have bounds := inv.heaps _ me running
  refine ⟨by rw [memory]; exact forked.good,by rw [table]; exact link,?_,by rw [memory]; exact inv.half.forked isRoot forked,?_⟩
  · intro yes i p code slot dead
    rw [table] at slot
    by_cases same : i = idx
    · subst same
      rw [Function.update_self,Option.some.injEq] at slot
      rw [← slot] at dead
      cases dead
    · rw [Function.update_of_ne same] at slot
      rw [memory,forked.spaces _ (inv.link.root slot (by rw [dead]; simp))]
      exact inv.zombies yes i p code slot dead
  · intro i p slot
    rw [table] at slot
    by_cases same : i = idx
    · subst same
      rw [Function.update_self,Option.some.injEq] at slot
      rw [← slot]
      exact bounds
    · rw [Function.update_of_ne same] at slot
      exact inv.heaps i p slot

/-- The invariant after a reaped child. -/
theorem Inv.reaped (inv : Inv exact o k g) {idx : Fin MAX_PROCESSES} {child : Process} {mm : Mm}
    (slot : k.process_list idx = some child) (there : child.state ≠ .Gone) (good : Good exact o.base mm g')
    (freeing : Freeing exact o.base k.mm (retire g child.page_table.root)
      (Belongs g child.page_table.root child.kernel_stack_frame) mm g') (memory : k'.mm = mm)
    (table : k'.process_list = Function.update k.process_list idx (some { child with state := .Gone })) : Inv exact o k' g' := by
  have isRoot := inv.link.root slot there
  obtain ⟨roots,stack⟩ := freeing.left isRoot
  have old : ∀ {i p}, k'.process_list i = some p → p.state ≠ .Gone → k.process_list i = some p := by
    intro i p found present
    rw [table] at found
    by_cases same : i = idx
    · subst same
      rw [Function.update_self,Option.some.injEq] at found
      rw [← found] at present
      exact absurd rfl present
    · rw [Function.update_of_ne same] at found
      exact found
  refine ⟨by rw [memory]; exact good,by rw [table]; exact inv.link.reap slot there roots stack,?_,
    by rw [memory]; exact inv.half.freed inv.good.mirrors.pool isRoot freeing,?_⟩
  · intro yes i p code found dead
    have before := old found (by rw [dead]; simp)
    rw [memory,freeing.space inv.good isRoot (inv.link.root before (by rw [dead]; simp))]
    exact inv.zombies yes i p code before dead
  · intro i p found
    rw [table] at found
    by_cases same : i = idx
    · subst same
      rw [Function.update_self,Option.some.injEq] at found
      rw [← found]
      exact inv.heaps _ child slot
    · rw [Function.update_of_ne same] at found
      exact inv.heaps i p found

theorem Inv.block (inv : Inv exact o k g) (running : k.process_list k.current = some me) (awake : me.state = .Running) :
    Inv exact o (blocked k me) g := by
  have there : me.state ≠ .Gone := by rw [awake]; simp
  refine Inv.shuffle inv (shuffled_update running (show Kin me { me with state := .Blocked } from kin_state there (by simp))) rfl
    fun yes i p code found dead => ?_
  by_cases same : i = k.current
  · subst same
    simp only [blocked,Function.update_self,Option.some.injEq] at found
    rw [← found] at dead
    cases dead
  · simp only [blocked,Function.update_of_ne same] at found
    exact inv.zombies yes i p code found dead

/-- The invariant after an exit that gave all pages back. -/
theorem Inv.ended (inv : Inv exact o k g) (running : k.process_list k.current = some me) (awake : me.state = .Running)
    {mm : Mm} (acts : Acts exact o.base me.page_table.root k.mm mm g g' (fun _ => none)) {output : List (BitVec 8)} {code : Nat} :
    Inv exact o (ended k me mm output code) g' := by
  have there : me.state ≠ .Gone := by rw [awake]; simp
  have served := Serves.of_acts running acts
  have emptied : Inv exact o { k with mm := mm } g' :=
    inv.act served.kept running awake acts.good acts.aside (Serves.heap served (inv.heaps _ me running).2)
  refine Inv.shuffle emptied (shuffled_ended running there mm output code) rfl fun yes i p c found dead => ?_
  rcases ended_zombie found dead with rfl | ⟨q,slotQ,deadQ,same⟩
  · obtain ⟨q,slotQ,kin⟩ := (shuffled_ended running there mm output code).back found
    rw [running,Option.some.injEq] at slotQ
    rw [kin.same,← slotQ]
    exact acts.pages
  · rw [← same]
    exact emptied.zombies yes i q c slotQ deadQ

/-- The invariant after a fatal fault, where a zombie may keep its pages. -/
theorem Inv.killed (inv : Inv exact o k g) (running : k.process_list k.current = some me) (awake : me.state = .Running)
    (leaky : exact = false) {output : List (BitVec 8)} {code : Nat} : Inv exact o (Traps.ended k me k.mm output code) g := by
  have there : me.state ≠ .Gone := by rw [awake]; simp
  refine Inv.shuffle inv (shuffled_ended running there k.mm output code) rfl fun yes => ?_
  rw [leaky] at yes
  cases yes

/-- Every way through the trap handler keeps the invariant. -/
theorem Handled.keeps {act : Option Eager.Action} {r : Option Nat} (handled : Handled exact o k g me act r k' g')
    (inv : Inv exact o k g) (home : AtHome k) (running : k.process_list k.current = some me) (awake : me.state = .Running) :
    Inv exact o k' g' ∧ AtHome k' := by
  have there : me.state ≠ .Gone := by rw [awake]; simp
  have bounds := inv.heaps _ me running
  cases handled with
  | quiet serves =>
    exact ⟨inv.act serves.kept running awake serves.good serves.aside (Serves.heap serves bounds.2),
      Serves.home serves running home⟩
  | call _ _ _ serves =>
    exact ⟨inv.act serves.kept running awake serves.good serves.aside
      (Serves.heap serves (call_heap (a := imageOf k.mm g me) bounds.1 bounds.2)),Serves.home serves running home⟩
  | full _ => exact ⟨inv,home⟩
  | childless _ => exact ⟨inv,home⟩
  | @fork args idx c s mm _ free forked =>
    refine ⟨Inv.forked inv running awake free forked rfl rfl,?_⟩
    intro p slot
    have other : k.current ≠ idx := by
      rintro rfl
      exact there (find_empty_slot_some free running)
    dsimp only at slot ⊢
    rw [Function.update_of_ne other] at slot
    exact home p slot
  | @reap args idx child code k1 g1 _ mm slot mine dead serves good freeing _ =>
    have other : idx ≠ k.current := by
      rintro rfl
      rw [running,Option.some.injEq] at slot
      rw [← slot,awake] at dead
      cases dead
    have slot1 : k1.process_list idx = some child := by rw [serves.kept.others idx other]; exact slot
    have inv1 := inv.act serves.kept running awake serves.good serves.aside
      (Serves.heap serves (a := { imageOf k.mm g me with pages := _ }) bounds.2)
    refine ⟨Inv.reaped inv1 slot1 (by rw [dead]; simp) good freeing rfl rfl,?_⟩
    have home1 := Serves.home serves running home
    intro p found
    dsimp only at found ⊢
    rw [Function.update_of_ne (by rw [serves.kept.current]; exact other.symm)] at found
    exact home1 p found
  | block _ _ _ _ chosen ready _ =>
    have after := Inv.resume (Inv.block inv running awake) chosen ready
    exact ⟨after.1,after.2.1⟩
  | exit _ acts chosen ready _ =>
    have after := Inv.resume (Inv.ended inv running awake acts) chosen ready
    exact ⟨after.1,after.2.1⟩
  | killed leaky chosen ready _ =>
    have after := Inv.resume (Inv.killed inv running awake leaky) chosen ready
    exact ⟨after.1,after.2.1⟩

/-! ### The reference system follows -/

/-- A process that can still run sees in the kernel what it sees in the reference system. -/
structure Agrees (w : World) (k : Kernel) (g : Ledger) : Prop where
  procs : w.procs = procs k
  input : w.input = k.input
  images : ∀ i p, k.process_list i = some p → Live (header p) → w.image i = imageOf k.mm g p

/-- The reference system does the same, or nothing. -/
def Follows (w : World) (act : Option Eager.Action) (w' : World) : Prop :=
  match act with
  | none => w' = w
  | some a => Eager.Step w a w'

theorem live_there {p : Process} (live : Live (header p)) : p.state ≠ .Gone := live_not_gone live

theorem Agrees.serves {w : World} (agrees : Agrees w k g) (inv : Inv exact o k g)
    (running : k.process_list k.current = some me) (awake : me.state = .Running) {a : Image} {input : Nat → BitVec 8}
    (serves : Serves exact o.base me k k' g g' a input) : Agrees { w.put a with input := input } k' g' := by
  refine ⟨?_,serves.input.symm,?_⟩
  · rw [procs_kept serves.kept]
    exact agrees.procs
  · intro i p slot live
    have here : w.procs.current = k.current := by rw [agrees.procs]; rfl
    dsimp only [World.put]
    rw [here]
    by_cases mine : i = k.current
    · subst mine
      obtain ⟨me',running',image⟩ := serves.image
      rw [running',Option.some.injEq] at slot
      rw [Function.update_self,← slot,image]
    · rw [serves.kept.others i mine] at slot
      rw [Function.update_of_ne mine,agrees.images i p slot live]
      have isRoot := inv.link.root slot (live_there live)
      have apart : p.page_table.root ≠ me.page_table.root := fun equal =>
        mine (inv.link.own_root slot running (live_there live) (by rw [awake]; simp) equal)
      unfold imageOf
      rw [serves.aside.spaces _ apart isRoot]

theorem put_same (w : World) : { w.put (w.image w.procs.current) with input := w.input } = w := by
  unfold World.put
  rw [Function.update_eq_self]

/-- Only states and parents change, for processes that go on. -/
theorem Agrees.shuffle {w : World} {procs' : System} (agrees : Agrees w k g)
    (shuffled : Shuffled k.process_list k'.process_list) (same : procs' = Steps.procs k') (input : k'.input = k.input)
    (alive : ∀ i p q, k.process_list i = some p → k'.process_list i = some q → Live (header q) → Live (header p))
    (spaces : ∀ i p, k.process_list i = some p → (∃ q, k'.process_list i = some q ∧ Live (header q)) →
      space k'.mm g' p.page_table.root = space k.mm g p.page_table.root) :
    Agrees { w with procs := procs' } k' g' := by
  refine ⟨same,agrees.input.trans input.symm,?_⟩
  intro i q slot live
  obtain ⟨p,slotP,kin⟩ := shuffled.back slot
  have before := agrees.images i p slotP (alive i p q slotP slot live)
  have same_space := spaces i p slotP ⟨q,slot,live⟩
  dsimp only
  rw [before,kin.same]
  unfold imageOf
  dsimp only
  rw [same_space]

theorem procs_resumed (k : Kernel) (j : Fin MAX_PROCESSES) (next : Process) :
    procs (resumed k j next) = switch (procs k) (slots k.process_list) j (header next) := by
  unfold procs resumed switch
  dsimp only
  rw [slots_update]
  rfl

theorem slots_ended (k : Kernel) (me : Process) (mm : Mm) (output : List (BitVec 8)) (code : Nat) :
    slots (ended k me mm output code).process_list = dieSlots (procs k) (header me) code := slots_buried k me mm code

theorem procs_ended (k : Kernel) (me : Process) (mm : Mm) (output : List (BitVec 8)) (code : Nat) :
    procs (ended k me mm output code) = { procs k with slots := dieSlots (procs k) (header me) code } := by
  rw [← slots_ended k me mm output code]
  rfl

theorem step_ended (running : k.process_list k.current = some me) {mm : Mm} {output : List (BitVec 8)} {code : Nat}
    {j : Fin MAX_PROCESSES} {next : Process} (chosen : (ended k me mm output code).process_list j = some next)
    (ready : next.state = .Ready) :
    Step (procs k) (.die code) (procs (resumed (ended k me mm output code) j next)) := by
  have slot : dieSlots (procs k) (header me) code j = some (header next) := by
    rw [← slots_ended k me mm output code]
    exact slots_some chosen
  rw [procs_resumed,slots_ended]
  exact .die (slots_some running) slot ready

theorem Agrees.mine {w : World} (agrees : Agrees w k g) (running : k.process_list k.current = some me)
    (awake : me.state = .Running) :
    w.procs.current = k.current ∧ w.procs.slots w.procs.current = some (header me) ∧
      w.image w.procs.current = imageOf k.mm g me := by
  have here : w.procs.current = k.current := by rw [agrees.procs]; rfl
  refine ⟨here,?_,?_⟩
  · rw [here,agrees.procs]
    exact slots_some running
  · rw [here]
    exact agrees.images _ me running (.inr (.inl awake))

/-- A process that goes on after a death went on before it, and did not die. -/
theorem ended_live (running : k.process_list k.current = some me) {mm : Mm} {output : List (BitVec 8)} {code : Nat}
    {i : Fin MAX_PROCESSES} {p q : Process} (slot : k.process_list i = some p)
    (after : (ended k me mm output code).process_list i = some q) (live : Live (header q)) :
    i ≠ k.current ∧ Live (header p) := by
  have apart : i ≠ k.current := by
    rintro rfl
    have adopted : (reparented k me.pid).process_list k.current = some (adopt me.pid me) := by
      simp [reparented,mapTable,running]
    have dead := (run_die (α := Nat) (k := { reparented k me.pid with mm := mm, output := output }) adopted code).2
    have same : some q = some { adopt me.pid me with state := .Zombie code } := after.symm.trans dead
    rw [Option.some.injEq] at same
    rw [same] at live
    exact live_not_zombie live ⟨code,rfl⟩
  refine ⟨apart,?_⟩
  have adopted : (reparented k me.pid).process_list i = some (adopt me.pid p) := by
    simp [reparented,mapTable,slot]
  have state : (adopt me.pid p).state = p.state := by
    unfold adopt
    split <;> rfl
  have kept : ∀ x, Function.update (reparented k me.pid).process_list k.current x i = some (adopt me.pid p) := by
    intro x
    rw [Function.update_of_ne apart]
    exact adopted
  rcases wakeTable_some after with same | ⟨r,slotR,waits,_⟩
  · have equal := Option.some.inj ((kept _).symm.trans same)
    rw [← equal] at live
    unfold Live header at live ⊢
    rw [state] at live
    exact live
  · have equal := Option.some.inj ((kept _).symm.trans slotR)
    rw [← equal,state] at waits
    exact .inr (.inr waits)

/-- The reference system goes on with the process that the scheduler chose. -/
theorem Agrees.resume {w : World} (agrees : Agrees w k g) (inv : Inv exact o k g) {j : Fin MAX_PROCESSES} {next : Process}
    (chosen : k.process_list j = some next) (ready : next.state = .Ready) :
    Agrees { w with procs := Steps.procs (resumed k j next) } (resumed k j next) g := by
  have there : next.state ≠ .Gone := by rw [ready]; simp
  refine agrees.shuffle (shuffled_update chosen (kin_state there (by simp))) rfl rfl ?_ ?_
  · intro i p q before after live
    by_cases same : i = j
    · subst same
      rw [chosen,Option.some.injEq] at before
      rw [← before]
      exact .inl ready
    · have after' : k.process_list i = some q := by rw [← after]; exact (Function.update_of_ne same _ _).symm
      rw [before,Option.some.injEq] at after'
      rw [after']
      exact live
  · rintro i p slot ⟨q,after,live⟩
    refine (Inv.resume inv chosen ready).2.2.1 _ (inv.link.root slot ?_)
    intro gone
    have moved : Shuffled k.process_list (resumed k j next).process_list := shuffled_update chosen (kin_state there (by simp))
    obtain ⟨q',slot',kin⟩ := moved.forth slot
    rw [after,Option.some.injEq] at slot'
    rw [slot'] at live
    exact live_there live (kin.gone.mpr gone)

/-- The reference system follows a death. -/
theorem Agrees.ended {w : World} (agrees : Agrees w k g) (inv : Inv exact o k g)
    (running : k.process_list k.current = some me) (awake : me.state = .Running) {mm : Mm} (output : List (BitVec 8)) (code : Nat)
    (aside : Aside me.page_table.root k.mm mm g g') :
    Agrees { w with procs := Steps.procs (ended k me mm output code) } (Traps.ended k me mm output code) g' := by
  have there : me.state ≠ .Gone := by rw [awake]; simp
  refine agrees.shuffle (shuffled_ended running there mm output code) rfl rfl ?_ ?_
  · intro i p q before after live
    exact (ended_live running before after live).2
  · rintro i p slot ⟨q,after,live⟩
    obtain ⟨apart,live'⟩ := ended_live running slot after live
    refine aside.spaces _ (fun equal => ?_) (inv.link.root slot (live_there live'))
    exact apart (inv.link.own_root slot running (live_there live') there equal)

theorem Handled.simulates {act : Option Eager.Action} {r : Option Nat} (handled : Handled exact o k g me act r k' g') {w : World}
    (agrees : Agrees w k g) (inv : Inv exact o k g) (running : k.process_list k.current = some me)
    (awake : me.state = .Running) (whole : ∀ args, act = some (.call SYS_FORK args) → Fits g me.page_table.root) :
    ∃ w', Follows w act w' ∧ Agrees w' k' g' := by
  have there : me.state ≠ .Gone := by rw [awake]; simp
  obtain ⟨here,slot_me,image_me⟩ := agrees.mine running awake
  cases handled with
  | quiet serves =>
    refine ⟨w,rfl,?_⟩
    have after := agrees.serves inv running awake serves
    rw [← image_me,← agrees.input,put_same] at after
    exact after
  | @call number r args granted _ _ returns not_fork not_wait serves =>
    refine ⟨_,Eager.Step.call granted returns not_fork not_wait,?_⟩
    rw [image_me,agrees.input]
    exact agrees.serves inv running awake serves
  | full none =>
    refine ⟨w,Eager.Step.full fun i => ?_,agrees⟩
    have refused := List.find?_eq_none.mp none i (List.mem_finRange i)
    rw [agrees.procs]
    cases slot : k.process_list i with
    | none => simp [slot] at refused
    | some p =>
      refine ⟨header p,slots_some slot,?_⟩
      have here : p.state ≠ .Gone := by simpa [slot] using refused
      exact here
  | childless none =>
    refine ⟨w,Eager.Step.childless slot_me ?_,agrees⟩
    rw [agrees.procs]
    exact none
  | @fork args idx c s mm _ free forked =>
    have fits := whole args rfl
    have empty : ∀ h, w.procs.slots idx = some h → h.state = .Gone := by
      intro h slot
      rw [agrees.procs] at slot
      obtain ⟨p,slotP,rfl⟩ := slots_inv slot
      exact find_empty_slot_some free slotP
    refine ⟨_,Eager.Step.fork slot_me empty,?_,agrees.input,?_⟩
    · unfold Steps.procs
      dsimp only
      rw [slots_update,agrees.procs]
      rfl
    · intro i p slot live
      dsimp only at slot ⊢
      by_cases same : i = idx
      · subst same
        rw [Function.update_self,Option.some.injEq] at slot
        rw [Function.update_self,image_me,← slot]
        have pages : space mm g' c = space k.mm g me.page_table.root := by
          funext n
          rcases forked.pages n with equal | ⟨_,short⟩
          · exact equal
          · exact absurd fits short
        unfold imageOf forkChild
        dsimp only
        rw [pages]
      · rw [Function.update_of_ne same] at slot ⊢
        rw [agrees.images i p slot live]
        unfold imageOf
        rw [forked.spaces _ (inv.link.root slot (live_there live))]
  | @reap args idx child code k1 g1 _ mm slot mine dead serves good freeing _ =>
    have other : idx ≠ k.current := by
      rintro rfl
      rw [running,Option.some.injEq] at slot
      rw [← slot,awake] at dead
      cases dead
    have slot1 : k1.process_list idx = some child := by rw [serves.kept.others idx other]; exact slot
    have inv1 := inv.act serves.kept running awake serves.good serves.aside
      (Serves.heap serves (a := { imageOf k.mm g me with pages := _ }) (inv.heaps _ me running).2)
    have step := Step.reap (s := procs k) (slots_some running) (slots_some slot) mine dead
    rw [← agrees.procs] at step
    have delivered := agrees.serves inv running awake serves
    refine ⟨_,Eager.Step.reap step,?_,?_,?_⟩
    · unfold Steps.procs
      dsimp only
      rw [slots_update,agrees.procs,← procs_kept serves.kept]
      rfl
    · exact agrees.input.trans serves.input.symm
    · intro i p found live
      dsimp only at found ⊢
      have apart : i ≠ idx := by
        rintro rfl
        rw [Function.update_self,Option.some.injEq] at found
        rw [← found] at live
        exact live_there live rfl
      rw [Function.update_of_ne apart] at found
      have isRoot := inv1.link.root found (live_there live)
      have isChild := inv1.link.root slot1 (by rw [dead]; simp)
      have after := delivered.images i p found live
      rw [image_me]
      dsimp only at after ⊢
      refine after.trans ?_
      unfold imageOf
      rw [freeing.space inv1.good isChild isRoot]
  | @block args i j child next clean slot mine live chosen ready _ =>
    have before := (Inv.block inv running awake)
    have waits : Agrees { w with procs := Steps.procs (blocked k me) } (blocked k me) g := by
      refine agrees.shuffle (shuffled_update running (kin_state there (by simp))) rfl rfl ?_ fun _ _ _ _ => rfl
      intro i p q first second live
      by_cases same : i = k.current
      · subst same
        rw [running,Option.some.injEq] at first
        rw [← first]
        exact .inr (.inl awake)
      · have second' : k.process_list i = some q := by rw [← second]; exact (Function.update_of_ne same _ _).symm
        rw [first,Option.some.injEq] at second'
        rw [second']
        exact live
    have table : slots (blocked k me).process_list = blockSlots (Steps.procs k) (header me) := slots_update _ _ _
    have found : blockSlots (Steps.procs k) (header me) j = some (header next) := by
      rw [← table]
      exact slots_some chosen
    refine ⟨{ w with procs := Steps.procs (resumed (blocked k me) j next) },Eager.Step.block ?_,
      waits.resume before chosen ready⟩
    rw [agrees.procs,procs_resumed,table]
    exact .block (slots_some running) clean slot mine live found ready
  | @exit number args mm _ j next exits acts chosen ready _ =>
    have step := step_ended running chosen ready
    rw [← agrees.procs] at step
    have after := (agrees.ended inv running awake k.output (args 0) acts.aside).resume
      (Inv.ended inv running awake acts) chosen ready
    exact ⟨_,Eager.Step.exit exits step,after⟩
  | @killed output j next leaky chosen ready _ =>
    have step := step_ended running chosen ready
    rw [← agrees.procs] at step
    have after := (agrees.ended inv running awake output 1 (Aside.refl _ _ _)).resume
      (Inv.killed inv running awake leaky) chosen ready
    exact ⟨_,Eager.Step.killed step,after⟩

/-! ### The trap handler -/

theorem image_congr {m m' : Mem} {a : Nat} (same : ∀ b, a ≤ b → b < a+288 → m' b = m b) :
    TrapFrame.image m' a = TrapFrame.image m a := by
  have word : ∀ c, c+8 ≤ 288 → load64 m' (a+c) = load64 m (a+c) := fun c inside =>
    load64_congr fun b low high => same b (by omega) (by omega)
  have regs : (fun i : Fin 32 => load64 m' (a+8*i)) = fun i : Fin 32 => load64 m (a+8*i) := by
    funext i
    exact word _ (by omega)
  unfold TrapFrame.image
  rw [regs,word 256 (by omega),word 264 (by omega),word 272 (by omega),word 280 (by omega)]

/-- The trap frames on the kernel stacks are not touched. -/
theorem image_stack (inv : Inv exact o k g) {i : Fin MAX_PROCESSES} {p : Process} (slot : k.process_list i = some p)
    (there : p.state ≠ .Gone) {mem : Mem}
    (bytes : ∀ x b c, g.own x = .stack b → c < 4096 → mem (x+c) = k.mm.mem (x+c)) :
    TrapFrame.image mem (p.kernel_sp-TrapFrame.SIZE) = trapped k p := by
  obtain ⟨owner,place,_⟩ := inv.link.framePage slot there
  refine image_congr fun b low high => ?_
  rw [place] at low high
  have split : b = framePage p+(b-framePage p) := by omega
  rw [split]
  exact bytes _ _ _ owner (by omega)

/-- What the trap handler does, when it comes back. -/
def Ends (exact : Bool) (o : Origin) (k : Kernel) (g : Ledger) (me : Process) (act : Option Eager.Action) :
    EStateM.Result Diverge Kernel Nat → Prop
  | .ok r k' => ∃ g', Handled exact o k g me act (some r) k' g'
  | .error (.restore sp) k' => ∃ g' next, Handled exact o k g me act none k' g' ∧
      k'.process_list k'.current = some next ∧ sp = next.kernel_sp-TrapFrame.SIZE
  | .error _ _ => True

/-- The scheduler does not return, so nothing after it runs. -/
theorem schedule_bind {α β : Type} {cur : Process} (running : k.process_list k.current = some cur) (f : α → K β) :
    ((schedule : K α) >>= f).run k = (schedule : K β).run k := by
  rcases schedule_cases running with ⟨run,_⟩ | ⟨j,next,run,_,_,_⟩
  · rw [run_seq_error (run α),run β]
  · rw [run_seq_error (run α),run β]

/-- The scheduler, for a process whose trap frame is the one on its stack. -/
theorem schedule_ends (k' : Kernel) {act : Option Eager.Action} {cur : Process} (running : k'.process_list k'.current = some cur)
    (synced : Synced k' cur)
    (goes : ∀ j next, k'.process_list j = some next → next.state = .Ready → pick_next k'.process_list k'.current = some j →
      Handled exact o k g me act none (resumed k' j next) g') :
    Ends exact o k g me act ((schedule : K Nat).run k') := by
  rcases schedule_cases running with ⟨run,_⟩ | ⟨j,next,run,slot,ready,picked⟩
  · rw [run]
    trivial
  · rw [run]
    rw [saved_synced running synced] at slot picked ⊢
    exact ⟨g',{ next with state := .Running },goes j next slot ready picked,Function.update_self .. ,rfl⟩

/-- The console after a text. -/
def printed (output : List (BitVec 8)) (s : String) : List (BitVec 8) :=
  output ++ s.toList.flatMap (fun c => if c = '\n' then [13,10] else [BitVec.ofNat 8 c.toNat])

theorem run_puts (s : String) (k : Kernel) : (puts s).run k = .ok ⟨⟩ { k with output := printed k.output s } := rfl

theorem run_print_hex (val : BitVec 64) (k : Kernel) : ∃ output, (print_hex val).run k = .ok ⟨⟩ { k with output := output } := by
  obtain ⟨k',run,output,rfl⟩ := forM_range' (ε := Diverge) (fun _ s => ∃ output, s = { k with output := output })
    (fun i => putchar (if val <<< (4*i) >>> 60 &&& 0xF < 10 then 48+(val <<< (4*i) >>> 60 &&& 0xF).setWidth 8
      else 97+(val <<< (4*i) >>> 60 &&& 0xF).setWidth 8-10)) 0 16 k ⟨k.output,rfl⟩ (by
    rintro i s _ _ ⟨output,rfl⟩
    exact ⟨_,rfl,_,rfl⟩)
  exact ⟨output,run⟩

theorem run_timer_tick (k : Kernel) :
    ∃ ticks output, timer_tick.run k = .ok 0 { k with tick_count := ticks, output := output } := by
  obtain ⟨output,run⟩ := run_print_hex (BitVec.ofNat 64 (k.tick_count+1))
    { k with tick_count := k.tick_count+1, output := printed k.output "tick " }
  refine ⟨k.tick_count+1,printed output "\n",?_⟩
  unfold timer_tick
  rw [run_seq (EStateM.run_modify _ _),run_seq (run_puts _ _),run_seq (EStateM.run_get _),run_seq run,run_seq (run_puts _ _)]
  rfl

/-- The invariant lets go of a zombie's page table. -/
theorem retire_zombie (inv : Inv exact o k g) {idx : Fin MAX_PROCESSES} {child : Process} {code : Nat}
    (slot : k.process_list idx = some child) (dead : child.state = .Zombie code) :
    Sound exact nothing o.base (retire g child.page_table.root) := by
  have isRoot := inv.link.root slot (by rw [dead]; simp)
  cases exact with
  | false => exact inv.good.sound.retire_leaky _
  | true =>
    refine inv.good.sound.retire_empty fun n e leaf => ?_
    have empty := congrFun (inv.zombies rfl idx child code slot dead) n
    have low := inv.good.sound.low leaf
    rw [space_low low,leaf.entry,pageAt_user leaf.valid leaf.user] at empty
    cases empty

section
variable (inv : Inv exact o k g) (home : AtHome k) (running : k.process_list k.current = some me) (awake : me.state = .Running)
  (synced : Synced k me)

include inv running awake synced

theorem ended_synced (mm : Mm) (bytes : ∀ x b c, g.own x = .stack b → c < 4096 → mm.mem (x+c) = k.mm.mem (x+c))
    (output : List (BitVec 8)) (code : Nat) :
    ∃ cur, (ended k me mm output code).process_list (ended k me mm output code).current = some cur ∧
      Synced (ended k me mm output code) cur := by
  have there : me.state ≠ .Gone := by rw [awake]; simp
  obtain ⟨q,slot,kin⟩ := (shuffled_ended running there mm output code).forth running
  refine ⟨q,slot,?_⟩
  unfold Synced trapped
  rw [kin.same]
  dsimp only
  rw [← synced]
  exact image_stack inv running there bytes

omit synced in
/-- What exit does before the scheduler. -/
theorem run_sys_exit (α : Type) (code : Nat) :
    ∃ mm g', Acts exact o.base me.page_table.root k.mm mm g g' (fun _ => none) ∧
      (sys_exit code : K α).run k = (schedule : K α).run (ended k me mm k.output code) := by
  have there : me.state ≠ .Gone := by rw [awake]; simp
  have adopted : (reparented k me.pid).process_list k.current = some (adopt me.pid me) := by
    simp [reparented,mapTable,running]
  have same : (adopt me.pid me).page_table = me.page_table := by rw [(kin_adopt me.pid me).same]
  obtain ⟨mm,g',leaves,acts,_⟩ := exit_spec me.page_table inv.good (inv.link.root running there)
  rw [← same] at leaves
  refine ⟨mm,g',acts,?_⟩
  unfold sys_exit
  rw [run_seq (run_reparent running),run_seq (run_current adopted),
    run_seq (onMm_ok (k := reparented k me.pid) leaves),(run_die (k := { reparented k me.pid with mm := mm }) adopted code).1]
  rfl

theorem sys_exit_handled {number : Nat} {args : Fin 6 → Nat} (exits : number = SYS_EXIT ∨ number = SYS_EXIT_GROUP) :
    Ends exact o k g me (some (.call number args)) ((sys_exit (args 0) : K Nat).run k) := by
  obtain ⟨mm,g',acts,run⟩ := run_sys_exit inv running awake Nat (args 0)
  obtain ⟨cur,slot,synced'⟩ := ended_synced inv running awake synced _ acts.aside.stack_bytes k.output (args 0)
  rw [run]
  exact schedule_ends (ended k me mm k.output (args 0)) slot synced' fun j next chosen ready picked =>
    .exit exits acts chosen ready picked

omit inv awake synced in
/-- What a fatal fault does before the scheduler. -/
theorem run_segfault (α : Type) (scause stval : BitVec 64) :
    ∃ output, (do_segfault scause stval : K α).run k = (schedule : K α).run (ended k me k.mm output 1) := by
  obtain ⟨out1,run1⟩ := run_print_hex scause { k with output := printed k.output "\n[SEGFAULT] scause=0x" }
  obtain ⟨out2,run2⟩ := run_print_hex stval { k with output := printed out1 " stval=0x" }
  refine ⟨printed out2 "\n",?_⟩
  have adopted : (reparented { k with output := printed out2 "\n" } me.pid).process_list k.current = some (adopt me.pid me) := by
    simp [reparented,mapTable,running]
  unfold do_segfault
  rw [run_seq (run_puts _ _),run_seq run1,run_seq (run_puts _ _),run_seq run2,run_seq (run_puts _ _),
    run_seq (run_reparent (k := { k with output := printed out2 "\n" }) running),(run_die adopted 1).1]
  rfl

theorem killed_handled (leaky : exact = false) (output : List (BitVec 8)) :
    Ends exact o k g me (some .killed) ((schedule : K Nat).run (ended k me k.mm output 1)) := by
  obtain ⟨cur,slot,synced'⟩ := ended_synced inv running awake synced k.mm (fun _ _ _ _ _ => rfl) output 1
  exact schedule_ends _ slot synced' fun j next chosen ready picked => .killed leaky chosen ready picked

omit synced in
theorem sys_fork_handled (fits : exact = true → Fits g me.page_table.root) (args : Fin 6 → Nat) :
    Ends exact o k g me (some (.call SYS_FORK args)) (sys_fork.run k) := by
  have there : me.state ≠ .Gone := by rw [awake]; simp
  unfold sys_fork
  rw [run_seq (EStateM.run_get _)]
  cases free : find_empty_slot k.process_list with
  | none => exact ⟨g,.full free⟩
  | some idx =>
    have pid : alloc_pid.run k = .ok k.next_pid { k with next_pid := k.next_pid+1 } := rfl
    dsimp only
    rw [run_seq pid,run_seq (run_current (k := { k with next_pid := k.next_pid+1 }) running)]
    rcases fork_memory_spec inv.good me.page_table (inv.link.root running there) fits with ⟨_,e,m,_,failed⟩ |
      ⟨c,s,mm,g',_,made,forked⟩
    · rw [run_seq_error (e := .panicked e) (t := { k with next_pid := k.next_pid+1, mm := m })]
      · trivial
      · rw [run_onMm]
        simp only [failed]
    · rw [run_seq (onMm_ok (k := { k with next_pid := k.next_pid+1 }) made),run_seq (EStateM.run_modify _ _)]
      exact ⟨g',.fork free forked⟩

omit synced in
include home in
/-- A zombie is reaped once its status word is stored. -/
theorem reap_goes {args : Fin 6 → Nat} (status : StatusPage g me.page_table.root (args 0)) {idx : Fin MAX_PROCESSES}
    {child : Process} {code : Nat} (slot : k.process_list idx = some child) (mine : child.parent_pid = me.pid)
    (dead : child.state = .Zombie code)
    (found : (List.finRange MAX_PROCESSES).find? (zombie_child k.process_list me.pid) = some idx) {k1 : Kernel}
    (delivered : (wait_status (args 0) (exit_code child)).run k = .ok ⟨⟩ k1) :
    ∃ k' g', (reap (args 0) idx).run k = .ok child.pid k' ∧
      Handled exact o k g me (some (.call SYS_WAIT args)) (some child.pid) k' g' := by
  have there : me.state ≠ .Gone := by rw [awake]; simp
  have isRoot := inv.link.root running there
  have code_eq : exit_code child = code := by simp [exit_code,dead]
  unfold reap
  rw [run_seq (EStateM.run_get _),slot]
  dsimp only
  rw [run_seq delivered]
  rw [code_eq] at delivered
  obtain ⟨g1,serves⟩ := wait_status_serves inv.good running isRoot (home me running) status delivered
  have other : idx ≠ k.current := by
    rintro rfl
    rw [running,Option.some.injEq] at slot
    rw [← slot,awake] at dead
    cases dead
  have slot1 : k1.process_list idx = some child := by rw [serves.kept.others idx other]; exact slot
  have inv1 : Inv exact o k1 g1 := inv.act serves.kept running awake serves.good serves.aside
    (Serves.heap serves (a := { imageOf k.mm g me with pages := _ }) (inv.heaps _ me running).2)
  have there1 : child.state ≠ .Gone := by rw [dead]; simp
  obtain ⟨mm,g',freed,good,freeing⟩ := free_user_pt_resources_spec inv1.good child (inv1.link.root slot1 there1)
    (retire_zombie inv1 slot1 dead) (inv1.link.stack slot1 there1)
  rw [run_seq (onMm_ok freed),run_seq (EStateM.run_modify _ _)]
  have handled := Handled.reap slot mine dead serves good freeing found
  exact ⟨_,g',rfl,handled⟩

omit synced in
include home in
theorem reap_handled {args : Fin 6 → Nat} (status : StatusPage g me.page_table.root (args 0)) {idx : Fin MAX_PROCESSES}
    {child : Process} {code : Nat} (slot : k.process_list idx = some child) (mine : child.parent_pid = me.pid)
    (dead : child.state = .Zombie code)
    (found : (List.finRange MAX_PROCESSES).find? (zombie_child k.process_list me.pid) = some idx) :
    Ends exact o k g me (some (.call SYS_WAIT args)) ((reap (args 0) idx).run k) := by
  cases delivered : (wait_status (args 0) (exit_code child)).run k with
  | error e k1 =>
    have fatal := (quiet_wait_status _ _).error delivered
    have stops : (reap (args 0) idx).run k = .error e k1 := by
      unfold reap
      rw [run_seq (EStateM.run_get _),slot]
      exact run_seq_error delivered
    rw [stops]
    match e with
    | .panicked _ => trivial
    | .unexpected_trap _ => trivial
    | .kernel_trap _ _ => trivial
  | ok _ k1 =>
    obtain ⟨k',g',run,handled⟩ := reap_goes inv home running awake status slot mine dead found delivered
    rw [run]
    exact ⟨g',handled⟩

include home in
theorem sys_wait_handled {args : Fin 6 → Nat} (status : StatusPage g me.page_table.root (args 0)) :
    Ends exact o k g me (some (.call SYS_WAIT args)) ((sys_wait (args 0)).run k) := by
  have there : me.state ≠ .Gone := by rw [awake]; simp
  unfold sys_wait
  rw [run_seq (run_current running),run_seq (EStateM.run_get _)]
  dsimp only
  cases found : (List.finRange MAX_PROCESSES).find? (zombie_child k.process_list me.pid) with
  | some idx =>
    obtain ⟨child,code,slot,mine,dead⟩ := zombie_child_some (List.find?_some found)
    exact reap_handled inv home running awake status slot mine dead found
  | none =>
    have clean := no_zombie_child found
    dsimp only
    by_cases some_live : (List.finRange MAX_PROCESSES).any (live_child k.process_list me.pid) = true
    · rw [if_pos some_live]
      obtain ⟨i,_,isLive⟩ := List.any_eq_true.mp some_live
      obtain ⟨child,slot,mine,live⟩ := live_child_some isLive
      rw [run_seq (run_update_current running _)]
      have stopped : (blocked k me).process_list (blocked k me).current = some { me with state := .Blocked } :=
        Function.update_self ..
      exact schedule_ends (blocked k me) stopped synced fun j next chosen ready picked =>
        .block clean (slots_some slot) mine live chosen ready picked
    · rw [if_neg some_live]
      exact ⟨g,.childless (no_child clean some_live)⟩

include home in
theorem dispatch_handled {number : Nat} {args : Fin 6 → Nat} (bounds : ∀ i, args i < 2^64)
    (status : number = SYS_WAIT → StatusPage g me.page_table.root (args 0))
    (fits : exact = true → number = SYS_FORK → Fits g me.page_table.root) :
    Ends exact o k g me (some (.call number args)) ((dispatch number args).run k) := by
  by_cases exits : number = SYS_EXIT ∨ number = SYS_EXIT_GROUP
  · rw [dispatch_exit args exits]
    exact sys_exit_handled inv running awake synced exits
  by_cases forks : number = SYS_FORK
  · subst forks
    rw [dispatch_fork]
    exact sys_fork_handled inv running awake (fun yes => fits yes rfl) args
  by_cases waits : number = SYS_WAIT
  · subst waits
    rw [dispatch_wait]
    exact sys_wait_handled inv home running awake synced (status rfl)
  cases run : (dispatch number args).run k with
  | error e k1 =>
    have fatal := (dispatch_quiet args exits forks waits).error run
    match e with
    | .panicked _ => trivial
    | .unexpected_trap _ => trivial
    | .kernel_trap _ _ => trivial
  | ok r k1 =>
    obtain ⟨granted,g1,serves,_⟩ := call_serves inv home running awake bounds exits forks waits run
    exact ⟨g1,.call exits forks waits serves⟩

open Classical in
theorem page_fault_handled {scause stval : BitVec 64}
    (tame : exact = true → scause = 15 ∧ CowPage g me.page_table.root (pageOf stval.toNat)) :
    Ends exact o k g me (if scause = 15 ∧ CowPage g me.page_table.root (pageOf stval.toNat) then none else some .killed)
      ((page_fault_handler scause stval).run k) := by
  have there : me.state ≠ .Gone := by rw [awake]; simp
  have isRoot := inv.link.root running there
  have leaky : ¬ (scause = 15 ∧ CowPage g me.page_table.root (pageOf stval.toNat)) → exact = false := by
    intro fatal
    cases exact with
    | false => rfl
    | true => exact absurd (tame rfl) fatal
  unfold page_fault_handler
  by_cases store : scause = 15
  · have resolvable : ¬ scause ≠ 15 := not_not.mpr store
    dsimp only
    rw [if_neg resolvable,run_seq (run_current running)]
    rcases cow_entry_spec inv.good me.page_table isRoot stval.toNat with ⟨e,entry,leaf,cow,slot,found⟩ | ⟨absent,found⟩
    · rw [run_seq (onMm_ok found),if_pos ⟨store,e,leaf,cow⟩]
      dsimp only
      cases resolved : (onMm (handle_cow_fault entry)).run k with
      | error why k1 =>
        have fatal := (quiet_onMm _).error resolved
        rw [run_seq_error resolved]
        cases why with
        | restore _ => cases fatal
        | shutdown => cases fatal
        | panicked _ => trivial
        | unexpected_trap _ => trivial
        | kernel_trap _ _ => trivial
      | ok _ k1 =>
        obtain ⟨g1,serves⟩ := cow_fault_serves inv.good running leaf cow slot resolved
        rw [run_seq resolved]
        exact ⟨g1,.quiet serves⟩
    · have fatal : ¬ (scause = 15 ∧ CowPage g me.page_table.root (pageOf stval.toNat)) := fun both => absent both.2
      obtain ⟨output,dies⟩ := run_segfault running Nat scause stval
      rw [run_seq (onMm_ok found),if_neg fatal]
      dsimp only
      rw [dies]
      exact killed_handled inv running awake synced (leaky fatal) output
  · have fatal : ¬ (scause = 15 ∧ CowPage g me.page_table.root (pageOf stval.toNat)) := fun both => store both.1
    obtain ⟨output,dies⟩ := run_segfault running PUnit scause stval
    obtain ⟨cur,slot,_⟩ := ended_synced inv running awake synced k.mm (fun _ _ _ _ _ => rfl) output 1
    dsimp only
    rw [if_pos store,if_neg fatal]
    have whole := killed_handled inv running awake synced (leaky fatal) output
    -- The rest of the handler is never reached.
    have skipped : ∀ f : PUnit → K Nat, ((do_segfault scause stval : K PUnit) >>= f).run k =
        (schedule : K Nat).run (ended k me k.mm output 1) := by
      intro f
      rw [← schedule_bind slot f]
      rcases schedule_cases slot with ⟨run,_⟩ | ⟨j,next,run,_,_,_⟩
      · rw [run_seq_error (dies.trans (run PUnit)),run_seq_error (run PUnit)]
      · rw [run_seq_error (dies.trans (run PUnit)),run_seq_error (run PUnit)]
    rw [skipped]
    exact whole

end

/-- The system call that the registers of a program ask for. -/
def callOf (ctx : Context) : Eager.Action := .call (ctx.regs 17).toNat fun i => (ctx.regs ⟨10+i.val,arg_lt i⟩).toNat

open Classical in
/-- What a trap asks of the reference system. -/
noncomputable def asked (g : Ledger) (r : Nat) (ctx : Context) (scause stval : BitVec 64) : Option Eager.Action :=
  if scause >>> 63 = 1 then none
  else if scause = 8 then some (callOf ctx)
  else if scause = 15 ∧ CowPage g r (pageOf stval.toNat) then none
  else some .killed

/-- What is assumed of a trap: the pointer of a wait names a user page, and in an exact run a fork
    finds the frames it needs and no fault is fatal. -/
structure Permitted (exact : Bool) (g : Ledger) (r : Nat) (ctx : Context) (scause stval : BitVec 64) : Prop where
  status : scause = 8 → (ctx.regs 17).toNat = SYS_WAIT → StatusPage g r (ctx.regs 10).toNat
  fork : exact = true → scause = 8 → (ctx.regs 17).toNat = SYS_FORK → Fits g r
  fault : exact = true → scause = 12 ∨ scause = 13 ∨ scause = 15 → scause = 15 ∧ CowPage g r (pageOf stval.toNat)

theorem regs_frame_of (ctx : Context) (scause stval : BitVec 64) {i : Fin 32} (used : i ≠ 0) :
    (frame_of ctx scause stval).regs i = ctx.regs i := Function.update_of_ne used _ _

theorem args_frame_of (ctx : Context) (scause stval : BitVec 64) :
    syscall_args (frame_of ctx scause stval) = fun i => (ctx.regs ⟨10+i.val,arg_lt i⟩).toNat := by
  funext i
  unfold syscall_args
  rw [regs_frame_of]
  intro zero
  have := congrArg Fin.val zero
  simp at this

/-- The kernel after `trap_entry` and the first lines of the trap handler. -/
def entered (ctx : Context) (scause stval : BitVec 64) (k : Kernel) (me : Process) : Kernel :=
  saved (trap_entry ctx scause stval k) me

/-- The running process with its registers saved. -/
def stopped (ctx : Context) (scause stval : BitVec 64) (me : Process) : Process :=
  { me with trap_frame := frame_of ctx scause stval }

theorem entered_inv (user : InUser exact o k g) (running : k.process_list k.current = some me) (awake : me.state = .Running)
    (ctx : Context) (scause stval : BitVec 64) :
    Inv exact o (entered ctx scause stval k me) g ∧ AtHome (entered ctx scause stval k me) ∧
      (entered ctx scause stval k me).process_list k.current = some (stopped ctx scause stval me) ∧
      Synced (entered ctx scause stval k me) (stopped ctx scause stval me) ∧
      ∀ q, g.own q = .root → space (entered ctx scause stval k me).mm g q = space k.mm g q := by
  obtain ⟨inv,home,frame,spaces⟩ := enter user running awake ctx scause stval
  have slot : (entered ctx scause stval k me).process_list k.current = some (stopped ctx scause stval me) := by
    unfold entered saved stopped
    dsimp only
    have same : TrapFrame.image (trap_entry ctx scause stval k).mm.mem (me.kernel_sp-TrapFrame.SIZE) =
        frame_of ctx scause stval := frame
    rw [same]
    exact Function.update_self ..
  have kept : Kept (trap_entry ctx scause stval k) (entered ctx scause stval k me) := by
    refine ⟨rfl,rfl,rfl,fun i other => Function.update_of_ne other _ _,?_,?_⟩
    · intro p here
      have running' : (trap_entry ctx scause stval k).process_list (trap_entry ctx scause stval k).current = some me := running
      rw [running',Option.some.injEq] at here
      subst here
      exact ⟨_,slot,rfl,rfl,rfl,rfl,rfl,rfl,rfl⟩
    · intro none
      have running' : (trap_entry ctx scause stval k).process_list (trap_entry ctx scause stval k).current = some me := running
      rw [running'] at none
      cases none
  refine ⟨?_,?_,slot,frame,spaces⟩
  · refine inv.act kept running awake inv.good (Aside.refl _ _ _) ?_
    intro me' here
    have here' : some me' = some (stopped ctx scause stval me) := here.symm.trans slot
    rw [Option.some.injEq] at here'
    rw [here']
    exact (user.inv.heaps _ me running).2
  · intro p here
    have here' : some p = some (stopped ctx scause stval me) := here.symm.trans slot
    rw [Option.some.injEq] at here'
    rw [here']
    exact home me running

/-- The trap handler saves the registers of the program and goes by the cause. -/
theorem run_trap_handler (user : InUser exact o k g) (running : k.process_list k.current = some me)
    (awake : me.state = .Running) (ctx : Context) (scause stval : BitVec 64) :
    (trap_handler scause stval).run (trap_entry ctx scause stval k) =
      (if scause >>> 63 = 1 then timer_tick
        else if scause = 8 then dispatch (ctx.regs 17).toNat fun i => (ctx.regs ⟨10+i.val,arg_lt i⟩).toNat
        else if scause = 12 ∨ scause = 13 ∨ scause = 15 then page_fault_handler scause stval
        else throw (.unexpected_trap scause)).run (entered ctx scause stval k me) := by
  obtain ⟨_,_,_,synced,_⟩ := entered_inv user running awake ctx scause stval
  have frame : TrapFrame.image (trap_entry ctx scause stval k).mm.mem (me.kernel_sp-TrapFrame.SIZE) =
      frame_of ctx scause stval := synced
  have read := onMm_ok (TrapFrame.run_read_from_stack (me.kernel_sp-TrapFrame.SIZE) (trap_entry ctx scause stval k).mm)
  rw [frame] at read
  have update : (update_current fun proc => { proc with trap_frame := frame_of ctx scause stval }).run (trap_entry ctx scause stval k) =
      .ok ⟨⟩ (entered ctx scause stval k me) := by
    rw [run_update_current (k := trap_entry ctx scause stval k) running]
    unfold entered saved
    rw [frame]
  unfold trap_handler
  rw [run_seq (run_current (k := trap_entry ctx scause stval k) running),run_seq read,run_seq update,args_frame_of,
    regs_frame_of ctx scause stval (by decide)]

/-- What the handler of a trap does. -/
theorem trap_handler_handled (user : InUser exact o k g) (running : k.process_list k.current = some me)
    (awake : me.state = .Running) {ctx : Context} {scause stval : BitVec 64}
    (permitted : Permitted exact g me.page_table.root ctx scause stval) :
    Ends exact o (entered ctx scause stval k me) g (stopped ctx scause stval me) (asked g me.page_table.root ctx scause stval)
      ((trap_handler scause stval).run (trap_entry ctx scause stval k)) := by
  obtain ⟨inv,home,slot,synced,_⟩ := entered_inv user running awake ctx scause stval
  rw [run_trap_handler user running awake]
  unfold asked
  by_cases timer : scause >>> 63 = 1
  · rw [if_pos timer,if_pos timer]
    obtain ⟨ticks,output,run⟩ := run_timer_tick (entered ctx scause stval k me)
    rw [run]
    exact ⟨g,.quiet (Serves.idle inv.good slot (quiet_timer_tick.ok run) rfl rfl rfl)⟩
  rw [if_neg timer,if_neg timer]
  by_cases call : scause = 8
  · rw [if_pos call,if_pos call]
    exact dispatch_handled inv home slot awake synced (fun i => BitVec.isLt _) (permitted.status call)
      fun yes => permitted.fork yes call
  rw [if_neg call,if_neg call]
  by_cases fault : scause = 12 ∨ scause = 13 ∨ scause = 15
  · rw [if_pos fault]
    exact page_fault_handled inv slot awake synced fun yes => permitted.fault yes fault
  · rw [if_neg fault]
    trivial

/-! ### Back to user mode -/

/-- The rest of a trap: a process that goes on gets its result, and the registers are restored. -/
def leaving (r : Option Nat) (frame_base : Nat) (k : Kernel) : Kernel :=
  trap_exit_restore frame_base (match r with
    | some result => trap_return frame_base result k
    | none => k)

/-- The process that runs next. -/
theorem Handled.next {act : Option Eager.Action} {r : Option Nat} (handled : Handled exact o k g me act r k' g')
    (running : k.process_list k.current = some me) (awake : me.state = .Running) :
    ∃ next, k'.process_list k'.current = some next ∧ next.state = .Running ∧
      (r.isSome → k'.current = k.current ∧ Same me next) := by
  have there : me.state ≠ .Gone := by rw [awake]; simp
  have served : ∀ {k1 : Kernel}, Kept k k1 → ∃ next, k1.process_list k1.current = some next ∧ next.state = .Running ∧
      (r.isSome → k1.current = k.current ∧ Same me next) := by
    intro k1 kept
    obtain ⟨q,slot,same⟩ := kept.mine me running
    exact ⟨q,by rw [kept.current]; exact slot,by rw [same.state]; exact awake,fun _ => ⟨kept.current,same⟩⟩
  have unmoved : ∀ {k1 : Kernel} {t : Table}, k1.current = k.current → k1.process_list = t → t k.current = some me →
      ∃ next, k1.process_list k1.current = some next ∧ next.state = .Running ∧
      (r.isSome → k1.current = k.current ∧ Same me next) := by
    intro k1 t here table slot
    exact ⟨me,by rw [here,table]; exact slot,awake,fun _ => ⟨here,Same.refl me⟩⟩
  have switched : ∀ {k1 : Kernel} {j : Fin MAX_PROCESSES} {p : Process},
      ∃ next, (resumed k1 j p).process_list (resumed k1 j p).current = some next ∧ next.state = .Running := by
    intro k1 j p
    exact ⟨{ p with state := .Running },Function.update_self .. ,rfl⟩
  cases handled with
  | quiet serves => exact served serves.kept
  | call _ _ _ serves => exact served serves.kept
  | full _ => exact unmoved rfl rfl running
  | childless _ => exact unmoved rfl rfl running
  | @fork _ idx _ _ _ _ free _ =>
    refine unmoved rfl rfl ?_
    dsimp only
    rw [Function.update_of_ne]
    · exact running
    · rintro rfl
      exact there (find_empty_slot_some free running)
  | @reap _ idx child code k1 _ _ _ slot _ dead serves _ _ _ =>
    obtain ⟨q,slotQ,runs,same⟩ := served serves.kept
    refine ⟨q,?_,runs,same⟩
    dsimp only
    rw [Function.update_of_ne]
    · exact slotQ
    · rw [serves.kept.current]
      rintro rfl
      rw [running,Option.some.injEq] at slot
      rw [← slot,awake] at dead
      cases dead
  | block => exact switched.imp fun _ both => ⟨both.1,both.2,fun some => by cases some⟩
  | exit => exact switched.imp fun _ both => ⟨both.1,both.2,fun some => by cases some⟩
  | killed => exact switched.imp fun _ both => ⟨both.1,both.2,fun some => by cases some⟩

/-- What the trap handler returns, when it returns to the code that called it. -/
def answer (ctx : Context) (scause stval : BitVec 64) (k : Kernel) : Option Nat :=
  match (trap_handler scause stval).run (trap_entry ctx scause stval k) with
  | .ok r _ => some r
  | .error _ _ => none

theorem trap_handled (user : InUser exact o k g) (running : k.process_list k.current = some me)
    (awake : me.state = .Running) {ctx : Context} {scause stval : BitVec 64}
    (permitted : Permitted exact g me.page_table.root ctx scause stval) (run : trap ctx scause stval k = .user k') :
    ∃ r kh g' next, Handled exact o (entered ctx scause stval k me) g (stopped ctx scause stval me)
        (asked g me.page_table.root ctx scause stval) r kh g' ∧
      kh.process_list kh.current = some next ∧ k' = leaving r (next.kernel_sp-TrapFrame.SIZE) kh ∧
      answer ctx scause stval k = r := by
  have ends := trap_handler_handled user running awake permitted
  obtain ⟨_,_,slot,_,_⟩ := entered_inv user running awake ctx scause stval
  unfold trap at run
  dsimp only at run
  cases result : (trap_handler scause stval).run (trap_entry ctx scause stval k) with
  | ok r kh =>
    rw [result] at ends
    obtain ⟨g',handled⟩ := ends
    rw [run_seq result,run_seq (EStateM.run_get _),EStateM.run_pure] at run
    obtain ⟨next,slotN,_,same⟩ := handled.next slot awake
    refine ⟨some r,kh,g',next,handled,slotN,?_,by rw [answer,result]⟩
    have sp : next.kernel_sp = k.hart.sscratch := by
      rw [(same rfl).2.kernel_sp,user.sscratch me running]
      rfl
    rw [sp]
    exact (Outcome.user.inj run).symm
  | error e kh =>
    rw [result] at ends
    rw [run_seq_error result] at run
    match e with
    | .restore sp =>
      obtain ⟨g',next,handled,slotN,place⟩ := ends
      refine ⟨none,kh,g',next,handled,slotN,?_,by rw [answer,result]⟩
      rw [← place]
      exact (Outcome.user.inj run).symm
    | .shutdown => cases run
    | .panicked _ => cases run
    | .unexpected_trap _ => cases run
    | .kernel_trap _ _ => cases run

/-- Returning to user mode writes to the stack page of the process only. -/
theorem leaving_memory {frame_base p : Nat} (place : frame_base = p+3808) (aligned : p%4096 = 0) (r : Option Nat) (k : Kernel) :
    ∃ mem hart, leaving r frame_base k = { k with mm := { k.mm with mem := mem }, hart := hart } ∧
      Confined (· = p) k.mm.mem mem ∧ hart.satp = k.hart.satp ∧ hart.reserved_fault = k.hart.reserved_fault ∧
      hart.sscratch = frame_base+TrapFrame.SIZE := by
  cases r with
  | none => exact ⟨k.mm.mem,_,rfl,Confined.refl _ _,rfl,rfl,rfl⟩
  | some result =>
    unfold leaving trap_return
    dsimp only
    by_cases call : load64 k.mm.mem (frame_base+272) = 8
    · rw [if_pos call]
      refine ⟨_,_,rfl,?_,rfl,rfl,rfl⟩
      rw [place,Nat.add_assoc,Nat.add_assoc]
      exact (confined_store64 _ _ aligned (by omega)).trans (confined_store64 _ _ aligned (by omega))
    · rw [if_neg call]
      exact ⟨k.mm.mem,_,rfl,Confined.refl _ _,rfl,rfl,rfl⟩

theorem leaving_user (inv : Inv exact o k g) (home : AtHome k) {next : Process} (slot : k.process_list k.current = some next)
    (awake : next.state = .Running) (r : Option Nat) :
    InUser exact o (leaving r (next.kernel_sp-TrapFrame.SIZE) k) g ∧
      ∀ q, g.own q = .root → space (leaving r (next.kernel_sp-TrapFrame.SIZE) k).mm g q = space k.mm g q := by
  have there : next.state ≠ .Gone := by rw [awake]; simp
  obtain ⟨owner,place,top⟩ := inv.link.framePage slot there
  have aligned := (inv.good.mirrors.pool.managed (f := framePage next) (by rw [owner]; simp)).1
  obtain ⟨mem,hart,equal,change,satp,_,sscratch⟩ := leaving_memory place aligned r k
  rw [equal]
  refine ⟨⟨inv.write_stack owner change rfl rfl,?_,?_⟩,(Invariant.write_stack inv.good owner change).2⟩
  · intro p here
    rw [← home p here]
    dsimp only
    rw [satp]
  · intro p here
    have same : some p = some next := here.symm.trans slot
    rw [Option.some.injEq] at same
    have size : TrapFrame.SIZE = 288 := rfl
    dsimp only
    rw [sscratch,same]
    omega

theorem leaving_rest (r : Option Nat) (frame_base : Nat) (k : Kernel) :
    (leaving r frame_base k).process_list = k.process_list ∧ (leaving r frame_base k).input = k.input := by
  cases r with
  | none => exact ⟨rfl,rfl⟩
  | some result =>
    unfold leaving trap_return
    dsimp only
    split <;> exact ⟨rfl,rfl⟩

theorem procs_leaving (r : Option Nat) (frame_base : Nat) (k : Kernel) : procs (leaving r frame_base k) = procs k := by
  cases r with
  | none => rfl
  | some result => exact procs_trap_return frame_base result k

/-! ### Whole traps -/

theorem Agrees.memory {w : World} (agrees : Agrees w k g) (inv : Inv exact o k g) (table : k'.process_list = k.process_list)
    (same : Steps.procs k' = Steps.procs k) (input : k'.input = k.input)
    (spaces : ∀ q, g.own q = .root → space k'.mm g q = space k.mm g q) : Agrees w k' g := by
  refine ⟨agrees.procs.trans same.symm,agrees.input.trans input.symm,?_⟩
  intro i p slot live
  rw [table] at slot
  rw [agrees.images i p slot live]
  unfold imageOf
  rw [spaces _ (inv.link.root slot (live_there live))]

theorem Agrees.entered {w : World} (agrees : Agrees w k g) (user : InUser exact o k g)
    (running : k.process_list k.current = some me) (awake : me.state = .Running) (ctx : Context) (scause stval : BitVec 64) :
    Agrees w (entered ctx scause stval k me) g := by
  obtain ⟨inv,_,slot,_,spaces⟩ := entered_inv user running awake ctx scause stval
  have same : Steps.procs (Traps.entered ctx scause stval k me) = Steps.procs k := by
    unfold Steps.procs Traps.entered
    rw [slots_saved (k := trap_entry ctx scause stval k) running]
    rfl
  refine ⟨agrees.procs.trans same.symm,agrees.input,?_⟩
  intro i p found live
  by_cases mine : i = k.current
  · subst mine
    rw [slot,Option.some.injEq] at found
    rw [agrees.images _ me running (.inr (.inl awake)),← found]
    unfold imageOf stopped
    dsimp only
    rw [spaces _ (user.inv.link.root running (by rw [awake]; simp))]
  · have found' : k.process_list i = some p := by rw [← found]; exact (Function.update_of_ne mine _ _).symm
    rw [agrees.images i p found' live]
    unfold imageOf
    rw [spaces _ (user.inv.link.root found' (live_there live))]

/-- A trap leads from user mode to user mode, and the reference system follows. -/
theorem trap_user (user : InUser exact o k g) (running : k.process_list k.current = some me) (awake : me.state = .Running)
    {ctx : Context} {scause stval : BitVec 64} (permitted : Permitted exact g me.page_table.root ctx scause stval)
    (run : trap ctx scause stval k = .user k') :
    ∃ g', InUser exact o k' g' ∧
      ∀ w, Agrees w k g → (∀ args, asked g me.page_table.root ctx scause stval = some (.call SYS_FORK args) →
        Fits g me.page_table.root) →
        ∃ w', Follows w (asked g me.page_table.root ctx scause stval) w' ∧ Agrees w' k' g' := by
  obtain ⟨r,kh,g',next,handled,slotN,rfl,_⟩ := trap_handled user running awake permitted run
  obtain ⟨inv,home,slot,synced,spaces⟩ := entered_inv user running awake ctx scause stval
  obtain ⟨inv',home'⟩ := handled.keeps inv home slot awake
  obtain ⟨next',slotN',awakeN,_⟩ := handled.next slot awake
  rw [slotN,Option.some.injEq] at slotN'
  subst slotN'
  obtain ⟨user',spaces'⟩ := leaving_user inv' home' slotN awakeN r
  refine ⟨g',user',?_⟩
  intro w agrees whole
  have begun := agrees.entered user running awake ctx scause stval
  obtain ⟨w',follows,after⟩ := handled.simulates begun inv slot awake whole
  exact ⟨w',follows,after.memory inv' (leaving_rest r _ kh).1 (procs_leaving r _ kh) (leaving_rest r _ kh).2 spaces'⟩

end

end Unit00.Traps
