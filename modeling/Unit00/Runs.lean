import Unit00.Boot

/-!
Whole runs from the boot. Every step of a machine whose waits are given good
status pointers keeps the invariant of memory and processes, and the reference
system can follow it; both are carried along runs of any length.
-/
namespace Unit00.Runs
open Unit00.Memory Unit00.Execution Unit00.Frame Unit00.Paging Unit00.Paging.PTEntry Unit00.Trees Unit00.Ownership
open Unit00.Mirror Unit00.Space Unit00.Pages Unit00.Ranges Unit00.Forking Unit00.Access Unit00.Mmu
open Unit00.Task Unit00.Scheduler Unit00.Syscall Unit00.Machine Unit00.Lifecycle Unit00.Steps Unit00.Invariant
open Unit00.Services Unit00.Traps Unit00.View Unit00.Boot
open Unit00.Eager (Page Pages Image World)

/-! ### Events -/

/-- The process that an event belongs to. -/
def runner (k : Kernel) : Option Process := k.process_list k.current

/-- The event is a system call of this number. -/
def Calls (e : Event) (number : Nat) : Prop := e.action = .ecall ∧ (e.ctx.regs 17).toNat = number

/-- An argument of a system call. -/
def argument (e : Event) (i : Fin 6) : Nat := (e.ctx.regs ⟨10+i.val,arg_lt i⟩).toNat

/-- The cause and the address of the trap that an event raises, if it raises one. -/
def trapOf (k : Kernel) (e : Event) : Option (BitVec 64 × BitVec 64) :=
  match e.action with
  | .load va => if (translate k.hart k.mm.mem .user .load va.toNat).isSome then none else some (13,va)
  | .fetch va => if (translate k.hart k.mm.mem .user .fetch va.toNat).isSome then none else some (12,va)
  | .store va _ => if (translate k.hart k.mm.mem .user .store va.toNat).isSome then none else some (15,va)
  | .ecall => some (8,0)
  | .timer => some ((1 <<< 63 ||| 5 : BitVec 64),0)
  | .exception cause => some (BitVec.ofNat 64 cause,0)

/-- The machine after an event that raises no trap. -/
def accessed (k : Kernel) (e : Event) : Kernel :=
  match e.action with
  | .store va value =>
    match translate k.hart k.mm.mem .user .store va.toNat with
    | some pa => { k with mm := { k.mm with mem := store8 k.mm.mem pa value } }
    | none => k
  | _ => k

theorem step_eq (k : Kernel) (e : Event) : step e k =
    match trapOf k e with
    | some (scause,stval) => trap e.ctx scause stval k
    | none => .user (accessed k e) := by
  unfold step trapOf accessed access
  cases e.action with
  | load va => cases found : translate k.hart k.mm.mem .user .load va.toNat <;> simp [found,fault_cause]
  | fetch va => cases found : translate k.hart k.mm.mem .user .fetch va.toNat <;> simp [found,fault_cause]
  | store va value => cases found : translate k.hart k.mm.mem .user .store va.toNat <;> simp [found,fault_cause]
  | ecall => rfl
  | timer => rfl
  | exception cause => rfl

/-- Only a system call traps with the cause of one. -/
theorem trapOf_call {k : Kernel} {e : Event} {stval : BitVec 64} (traps : trapOf k e = some (8,stval)) : e.action = .ecall := by
  obtain ⟨ctx,action⟩ := e
  unfold trapOf at traps
  cases action with
  | ecall => rfl
  | timer =>
    have same : (1 <<< 63 ||| 5 : BitVec 64) = 8 := congrArg Prod.fst (Option.some.inj traps)
    exact absurd same (by decide)
  | exception cause =>
    have same : BitVec.ofNat 64 cause.val = 8 := congrArg Prod.fst (Option.some.inj traps)
    clear traps
    exact absurd same (by decide +revert)
  | load va =>
    dsimp only at traps
    split at traps
    · cases traps
    · have same : (13 : BitVec 64) = 8 := congrArg Prod.fst (Option.some.inj traps)
      exact absurd same (by decide)
  | fetch va =>
    dsimp only at traps
    split at traps
    · cases traps
    · have same : (12 : BitVec 64) = 8 := congrArg Prod.fst (Option.some.inj traps)
      exact absurd same (by decide)
  | store va value =>
    dsimp only at traps
    split at traps
    · cases traps
    · have same : (15 : BitVec 64) = 8 := congrArg Prod.fst (Option.some.inj traps)
      exact absurd same (by decide)

/-- A store fault at this address is one that the kernel resolves by a copy. -/
def resolves (k : Kernel) (va : Nat) : Prop :=
  ∃ me e, runner k = some me ∧ userLeaf k.mm me.page_table va = some e ∧ is_cow e = true

open Classical in
/-- What the reference system sees of an event: nothing of the accesses that succeed without a store, of the timer
    and of store faults that the kernel resolves. -/
noncomputable def visible (k : Kernel) (e : Event) : Option Eager.Action :=
  match trapOf k e with
  | none =>
    match e.action with
    | .store va value => some (.store va.toNat value)
    | _ => none
  | some (scause,stval) =>
    if scause >>> 63 = 1 then none
    else if scause = 8 then some (callOf e.ctx)
    else if scause = 15 ∧ resolves k stval.toNat then none
    else some .killed

/-- The reference system sees a system call only of an event that is one. -/
theorem visible_call {k : Kernel} {e : Event} {number : Nat} {args : Fin 6 → Nat}
    (seen : visible k e = some (.call number args)) : Calls e number ∧ args = argument e := by
  unfold visible at seen
  cases traps : trapOf k e with
  | none =>
    rw [traps] at seen
    dsimp only at seen
    split at seen <;> cases seen
  | some cause =>
    obtain ⟨scause,stval⟩ := cause
    rw [traps] at seen
    dsimp only at seen
    by_cases interrupt : scause >>> 63 = 1
    · rw [if_pos interrupt] at seen
      cases seen
    rw [if_neg interrupt] at seen
    by_cases call : scause = 8
    · rw [if_pos call] at seen
      subst call
      unfold callOf at seen
      injection seen with seen
      injection seen with number_eq args_eq
      exact ⟨⟨trapOf_call traps,number_eq⟩,args_eq.symm⟩
    · rw [if_neg call] at seen
      split at seen <;> cases seen

/-- The event is a fatal fault. -/
def Kills (k : Kernel) (e : Event) : Prop := visible k e = some .killed

/-- A status pointer that wait may store to: null, or eight bytes of user pages that are writable or copied on
    write. -/
def StatusPointer (m : Mm) (pt : PageTable) (ptr : Nat) : Prop :=
  ptr = 0 ∨ ∀ i, i < 8 → ∃ e, userLeaf m pt (ptr+i) = some e ∧ (is_w e || is_cow e) = true

/-- The event is no wait with a bad status pointer. -/
def WaitsWell (k : Kernel) (e : Event) : Prop :=
  Calls e SYS_WAIT → ∀ me, runner k = some me → StatusPointer k.mm me.page_table (argument e 0)

/-- There are frames for the root and the kernel stack of a child and for all tables of its user pages. -/
def ForkFits (m : Mm) (pt : PageTable) : Prop := tablesFor (mapped m pt)+1+KERNEL_STACK_PAGES ≤ freeFrames m

/-- The event is no fork that is short of frames. -/
def ForksWell (k : Kernel) (e : Event) : Prop :=
  Calls e SYS_FORK → ∀ me, runner k = some me → ForkFits k.mm me.page_table

/-- Events after which every frame is accounted for: no fork is short of frames and no process is killed. -/
def Clean (k : Kernel) (e : Event) : Prop := ForksWell k e ∧ ¬ Kills k e

section
variable {exact : Bool} {base : Nat} {m : Mm} {g : Ledger} (good : Good exact base m g) (pt : PageTable)
  (isRoot : g.own pt.root = .root)

include good isRoot

theorem statusPointer_iff {ptr : Nat} : StatusPointer m pt ptr ↔ StatusPage g pt.root ptr := by
  simp only [StatusPointer,StatusPage,userLeaf_iff good pt isRoot]

theorem forkFits_iff : ForkFits m pt ↔ Fits g pt.root := by
  rw [ForkFits,Fits,mapped_eq good pt isRoot,freeFrames_eq good.mirrors.pool]

end

/-! ### One step -/

section
variable {exact : Bool} {o : Origin} {k k' : Kernel} {g : Ledger} {me : Process} {e : Event}
  (user : InUser exact o k g) (running : k.process_list k.current = some me) (awake : me.state = .Running)

include user running awake

theorem me_root : g.own me.page_table.root = .root := user.inv.link.root running (by rw [awake]; simp)

theorem resolves_iff (va : Nat) : resolves k va ↔ CowPage g me.page_table.root (pageOf va) := by
  have leaves : ∀ {e}, userLeaf k.mm me.page_table va = some e ↔ UserLeaf g me.page_table.root (pageOf va) e :=
    userLeaf_iff user.inv.good me.page_table (me_root user running awake)
  constructor
  · rintro ⟨me',e,same,found,cow⟩
    rw [runner,running,Option.some.injEq] at same
    rw [← same] at found
    exact ⟨e,leaves.mp found,cow⟩
  · rintro ⟨e,leaf,cow⟩
    exact ⟨me,e,running,leaves.mpr leaf,cow⟩

/-- What the reference system sees of a trap. -/
theorem visible_trap {scause stval : BitVec 64} (traps : trapOf k e = some (scause,stval)) :
    visible k e = asked g me.page_table.root e.ctx scause stval := by
  classical
  unfold visible asked
  rw [traps]
  exact if_congr Iff.rfl rfl (if_congr Iff.rfl rfl
    (if_congr (and_congr_right fun _ => resolves_iff user running awake _) rfl rfl))

theorem permitted_of {scause stval : BitVec 64} (traps : trapOf k e = some (scause,stval)) (waits : WaitsWell k e)
    (clean : exact = true → Clean k e) : Permitted exact g me.page_table.root e.ctx scause stval := by
  have isRoot := me_root user running awake
  have ecall : scause = 8 → e.action = .ecall := fun call => trapOf_call (by rw [traps,call])
  refine ⟨?_,?_,?_⟩
  · intro call number
    exact (statusPointer_iff user.inv.good me.page_table isRoot).mp (waits ⟨ecall call,number⟩ me running)
  · intro yes call number
    exact (forkFits_iff user.inv.good me.page_table isRoot).mp ((clean yes).1 ⟨ecall call,number⟩ me running)
  · intro yes fault
    by_contra other
    refine (clean yes).2 ?_
    unfold Kills
    rw [visible_trap user running awake traps,asked]
    rw [if_neg (by rcases fault with rfl | rfl | rfl <;> decide),if_neg (by rcases fault with rfl | rfl | rfl <;> decide),
      if_neg other]

/-- A store that the hart lets pass is a store to a page of the process that may be written. -/
theorem stored (va : BitVec 64) (value : BitVec 8) (action : e.action = .store va value) (silent : trapOf k e = none) :
    ∃ d, UserLeaf g me.page_table.root (pageOf va.toNat) d ∧ is_w d = true ∧
      accessed k e = { k with mm := { k.mm with mem := store8 k.mm.mem (ppn_to_addr d+va.toNat%4096) value } } := by
  unfold trapOf at silent
  rw [action] at silent
  cases found : translate k.hart k.mm.mem .user .store va.toNat with
  | none => simp [found] at silent
  | some pa =>
    obtain ⟨d,leaf,permit,_,rfl⟩ := translate_user user.inv.good (me_root user running awake) (user.home me running) found
    refine ⟨d,leaf,?_,?_⟩
    · simp only [permits,Bool.and_eq_true] at permit
      exact permit.1
    · unfold accessed
      rw [action]
      simp only [found]

/-- What a step is: an access that nobody else sees, or a trap. -/
theorem step_split (run : step e k = .user k') (waits : WaitsWell k e) (clean : exact = true → Clean k e) :
    (trapOf k e = none ∧ k' = accessed k e) ∨
    ∃ scause stval, trapOf k e = some (scause,stval) ∧ trap e.ctx scause stval k = .user k' ∧
      visible k e = asked g me.page_table.root e.ctx scause stval ∧ Permitted exact g me.page_table.root e.ctx scause stval := by
  rw [step_eq] at run
  cases traps : trapOf k e with
  | none =>
    rw [traps] at run
    exact .inl ⟨rfl,(Outcome.user.inj run).symm⟩
  | some cause =>
    obtain ⟨scause,stval⟩ := cause
    rw [traps] at run
    exact .inr ⟨scause,stval,rfl,run,visible_trap user running awake traps,permitted_of user running awake traps waits clean⟩

/-- A store in user mode changes one byte of one process. -/
theorem store_acts (va : BitVec 64) (value : BitVec 8) (action : e.action = .store va value) (silent : trapOf k e = none) :
    Acts exact o.base me.page_table.root k.mm (accessed k e).mm g g
      (Eager.writeByte va.toNat value (space k.mm g me.page_table.root)) ∧
      ∃ mm, accessed k e = { k with mm := mm } := by
  obtain ⟨d,leaf,writable,after⟩ := stored user running awake va value action silent
  rw [after]
  exact ⟨store_page user.inv.good leaf writable value,_,rfl⟩

omit user running awake in
theorem accessed_idle (silent : ∀ va value, e.action ≠ .store va value) : accessed k e = k := by
  unfold accessed
  cases action : e.action with
  | store va value => exact absurd action (silent va value)
  | load va => rfl
  | fetch va => rfl
  | ecall => rfl
  | timer => rfl
  | exception cause => rfl

/-- An access keeps the invariant, and the reference system follows. -/
theorem accessed_user (silent : trapOf k e = none) :
    InUser exact o (accessed k e) g ∧
      ∀ w, Agrees w k g → ∃ w', Follows w (visible k e) w' ∧ Agrees w' (accessed k e) g := by
  by_cases store : ∃ va value, e.action = .store va value
  · obtain ⟨va,value,action⟩ := store
    obtain ⟨acts,mm,after⟩ := store_acts user running awake va value action silent
    have seen : visible k e = some (.store va.toNat value) := by
      unfold visible
      rw [silent,action]
    obtain ⟨d,leaf,writable,_⟩ := stored user running awake va value action silent
    rw [after] at acts
    have serves := Serves.of_acts (k := k) running acts
    have heap := (user.inv.heaps _ me running).2
    refine ⟨⟨?_,?_,?_⟩,?_⟩
    · rw [after]
      exact user.inv.act serves.kept running awake serves.good serves.aside (Serves.heap serves heap)
    · rw [after]
      exact Serves.home serves running user.home
    · rw [after]
      exact user.sscratch
    · intro w agrees
      obtain ⟨_,_,image⟩ := agrees.mine running awake
      have page : (w.image w.procs.current).pages (pageOf va.toNat) =
          some ⟨is_r d,is_w d || is_cow d,is_x d,fun i => k.mm.mem (ppn_to_addr d+i)⟩ := by
        rw [image]
        simp only [imageOf]
        rw [space_low (user.inv.good.sound.low leaf),leaf.entry,pageAt_user leaf.valid leaf.user]
      rw [seen,after]
      refine ⟨_,Eager.Step.store page (by rw [writable]; rfl),?_⟩
      have next := agrees.serves user.inv running awake serves
      have same : ∀ a : Image, { w.put a with input := k.input } = w.put a := fun a => by rw [← agrees.input]; rfl
      rw [same] at next
      rw [image]
      exact next
  · have idle := accessed_idle (k := k) (e := e) fun va value action => store ⟨va,value,action⟩
    have unseen : visible k e = none := by
      unfold visible
      rw [silent]
      cases action : e.action with
      | store va value => exact absurd ⟨va,value,action⟩ store
      | load va => rfl
      | fetch va => rfl
      | ecall => rfl
      | timer => rfl
      | exception cause => rfl
    rw [idle,unseen]
    exact ⟨user,fun w agrees => ⟨w,rfl,agrees⟩⟩

/-- A step keeps the invariant, and the reference system follows a step that is no fork short of frames. -/
theorem step_user (waits : WaitsWell k e) (clean : exact = true → Clean k e) (run : step e k = .user k') :
    ∃ g', InUser exact o k' g' ∧
      ∀ w, Agrees w k g → ForksWell k e → ∃ w', Follows w (visible k e) w' ∧ Agrees w' k' g' := by
  rcases step_split user running awake run waits clean with ⟨silent,rfl⟩ | ⟨scause,stval,traps,run,seen,permitted⟩
  · obtain ⟨after,follows⟩ := accessed_user user running awake silent
    exact ⟨g,after,fun w agrees _ => follows w agrees⟩
  · obtain ⟨g',after,follows⟩ := trap_user user running awake permitted run
    refine ⟨g',after,fun w agrees forks => ?_⟩
    rw [seen]
    refine follows w agrees fun args fork => ?_
    refine (forkFits_iff user.inv.good me.page_table (me_root user running awake)).mp (forks ?_ me running)
    rw [← seen] at fork
    exact (visible_call fork).1

end

/-! ### Runs -/

/-- The runs of a machine from its boot: the events with the states they happened in, the latest first. -/
inductive Run (cfg : Config) (allowed : Kernel → Event → Prop) : List (Kernel × Event) → Kernel → Prop
  | boot {k : Kernel} (run : boot cfg = .user k) : Run cfg allowed [] k
  | step {history : List (Kernel × Event)} {k k' : Kernel} {e : Event} (before : Run cfg allowed history k)
      (may : allowed k e) (run : step e k = .user k') : Run cfg allowed ((k,e) :: history) k'

/-- The runs of the reference system from a world, the latest action first. -/
inductive Follow (w0 : World) : List Eager.Action → World → Prop
  | start : Follow w0 [] w0
  | step {actions : List Eager.Action} {w w' : World} {a : Eager.Action} (before : Follow w0 actions w)
      (next : Eager.Step w a w') : Follow w0 (a :: actions) w'

/-- What the reference system sees of a run. -/
noncomputable def actions (history : List (Kernel × Event)) : List Eager.Action :=
  history.filterMap fun h => visible h.1 h.2

/-- The pages of a process. -/
def pagesOf (m : Mm) (pt : PageTable) : Pages := fun n =>
  if n < 2^27 then
    (userLeaf m pt (n*4096)).map fun e => ⟨is_r e,is_w e || is_cow e,is_x e,fun o => m.mem (ppn_to_addr e+o)⟩
  else none

/-- The address space of a process with its records. -/
def imageAt (m : Mm) (p : Process) : Image := ⟨pagesOf m p.page_table,p.heap_start,p.heap_end,p.mmap_areas⟩

/-- The reference system in the state of a machine. -/
def worldOf (k : Kernel) : World where
  procs := procs k
  image i :=
    match k.process_list i with
    | some p => imageAt k.mm p
    | none => ⟨fun _ => none,0,0,fun _ => .EMPTY⟩
  input := k.input

section
variable {cfg : Config} {allowed : Kernel → Event → Prop} {k k' : Kernel}

theorem Run.reachable {history : List (Kernel × Event)} (run : Run cfg allowed history k) : Reachable cfg allowed k := by
  induction run with
  | boot run => exact .boot run
  | step _ may run ih => exact .step ih may run

/-- There is a running process in every state reached. -/
theorem reachable_awake (reached : Reachable cfg allowed k) :
    ∃ me, k.process_list k.current = some me ∧ me.state = .Running := by
  obtain ⟨h,slot,isRunning⟩ := (reachable_sound reached).running
  obtain ⟨me,running,rfl⟩ := slots_inv slot
  exact ⟨me,running,isRunning⟩

theorem pagesOf_eq {exact : Bool} {base : Nat} {m : Mm} {g : Ledger} (good : Good exact base m g) (pt : PageTable)
    (isRoot : g.own pt.root = .root) : pagesOf m pt = space m g pt.root := by
  funext n
  unfold pagesOf
  by_cases inside : n < 2^27
  · rw [if_pos inside]
    cases found : userLeaf m pt (n*4096) with
    | some e =>
      have leaf := (userLeaf_page good pt isRoot inside).mp found
      rw [space_low (good.sound.low leaf),leaf.entry,pageAt_user leaf.valid leaf.user]
      rfl
    | none =>
      cases page : space m g pt.root n with
      | none => rfl
      | some p =>
        have leaf := (space_leaf isRoot page).2
        rw [(userLeaf_page good pt isRoot inside).mpr leaf] at found
        cases found
  · rw [if_neg inside]
    unfold space
    rw [if_neg (by omega)]

theorem imageAt_eq {exact : Bool} {o : Origin} {g : Ledger} (inv : Inv exact o k g) {i : Fin MAX_PROCESSES} {p : Process}
    (slot : k.process_list i = some p) (there : p.state ≠ .Gone) : imageAt k.mm p = imageOf k.mm g p := by
  unfold imageAt imageOf
  rw [pagesOf_eq inv.good p.page_table (inv.link.root slot there)]

theorem worldOf_agrees {exact : Bool} {o : Origin} {g : Ledger} (inv : Inv exact o k g) : Agrees (worldOf k) k g := by
  refine ⟨rfl,rfl,fun i p slot live => ?_⟩
  unfold worldOf
  simp only [slot]
  exact imageAt_eq inv slot (live_there live)

/-- Every state reached has a ledger that goes back to the boot. -/
theorem reachable_user (exact : Bool) (lawful : ∀ k e, allowed k e → WaitsWell k e ∧ (exact = true → Clean k e))
    (reached : Reachable cfg allowed k) :
    ∃ r s m g0 g, boot cfg = .user (launched cfg r s m) ∧ Launch exact cfg r s m g0 ∧
      InUser exact (origin cfg r s m g0) k g := by
  induction reached with
  | boot run =>
    obtain ⟨r,s,m,g,rfl,launch⟩ := boot_launch exact run
    exact ⟨r,s,m,g,g,run,launch,launch.user⟩
  | step before may run ih =>
    obtain ⟨r,s,m,g0,g,booted,launch,user⟩ := ih
    obtain ⟨me,running,awake⟩ := reachable_awake before
    obtain ⟨waits,clean⟩ := lawful _ _ may
    obtain ⟨g',after,_⟩ := step_user user running awake waits clean run
    exact ⟨r,s,m,g0,g',booted,launch,after⟩

/-- The reference system follows every run without a fork that is short of frames. -/
theorem run_follows (lawful : ∀ k e, allowed k e → WaitsWell k e ∧ ForksWell k e) {history : List (Kernel × Event)}
    (run : Run cfg allowed history k) :
    ∃ k0 w, boot cfg = .user k0 ∧ Follow (worldOf k0) (actions history) w ∧ ∃ o g, InUser false o k g ∧ Agrees w k g := by
  induction run with
  | boot run =>
    obtain ⟨r,s,m,g,rfl,launch⟩ := boot_launch false run
    exact ⟨_,_,run,.start,_,g,launch.user,worldOf_agrees launch.user.inv⟩
  | @step history k k' e before may run ih =>
    obtain ⟨k0,w,booted,follow,o,g,user,agrees⟩ := ih
    obtain ⟨me,running,awake⟩ := reachable_awake before.reachable
    obtain ⟨waits,forks⟩ := lawful _ _ may
    obtain ⟨g',after,follows⟩ := step_user user running awake waits (by simp) run
    obtain ⟨w',next,agrees'⟩ := follows w agrees forks
    cases seen : visible k e with
    | none =>
      rw [seen] at next
      have same : w' = w := next
      refine ⟨k0,w,booted,?_,o,g',after,by rw [← same]; exact agrees'⟩
      rw [actions,List.filterMap_cons]
      simp only [seen]
      exact follow
    | some a =>
      rw [seen] at next
      refine ⟨k0,w',booted,?_,o,g',after,agrees'⟩
      rw [actions,List.filterMap_cons]
      simp only [seen]
      exact follow.step next

end

end Unit00.Runs
