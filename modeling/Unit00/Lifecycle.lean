import Unit00.Scheduler

/-!
The life of processes without their memory: what fork, wait, exit and the
scheduler do to pids, parents and states. The kernel's process table refines
this system (`Unit00.Steps`); here are its invariants over every run: the shape
of the process forest, that a blocked process always has a child that can wake
it, and which deaths leave a blocked init with a zombie.
-/
namespace Unit00.Lifecycle
open Unit00.Task Unit00.Scheduler

/-- What the scheduler knows of a process. -/
structure Header where
  pid : Nat
  parent_pid : Nat
  state : ProcessState
  deriving DecidableEq

abbrev Slots := Fin MAX_PROCESSES → Option Header

structure System where
  slots : Slots
  current : Fin MAX_PROCESSES
  next_pid : Nat

/-- Neither a zombie nor gone. -/
def Live (h : Header) : Prop := h.state = .Ready ∨ h.state = .Running ∨ h.state = .Blocked

def Zombie (h : Header) : Prop := ∃ code, h.state = .Zombie code

theorem state_cases (h : Header) : Live h ∨ Zombie h ∨ h.state = .Gone := by
  cases state : h.state <;> simp [Live,Zombie,state]

theorem live_not_gone {h : Header} (live : Live h) : h.state ≠ .Gone := by
  rcases live with state | state | state <;> simp [state]

theorem live_not_zombie {h : Header} (live : Live h) : ¬ Zombie h := by
  rintro ⟨code,zombie⟩
  rcases live with state | state | state <;> simp [state] at zombie

/-! ### What a step does -/

def adoptHeader (cur_pid : Nat) (h : Header) : Header :=
  if h.parent_pid = cur_pid ∧ h.state ≠ .Gone then { h with parent_pid := 1 } else h

def waitingHeader (parent_pid : Nat) (s : Slots) (i : Fin MAX_PROCESSES) : Bool :=
  match s i with
  | none => false
  | some h => h.pid == parent_pid && h.state == .Blocked

def wakeSlots (s : Slots) (parent_pid : Nat) : Slots :=
  match (List.finRange MAX_PROCESSES).find? (waitingHeader parent_pid s) with
  | none => s
  | some i => Function.update s i ((s i).map fun h => { h with state := .Ready })

/-- The slots after the running process `me` died. -/
def dieSlots (s : System) (me : Header) (code : Nat) : Slots :=
  let orphaned : Slots := fun i => (s.slots i).map (adoptHeader me.pid)
  wakeSlots (Function.update orphaned s.current (some { adoptHeader me.pid me with state := .Zombie code }))
    (adoptHeader me.pid me).parent_pid

/-- The slots after the running process `me` blocked. -/
def blockSlots (s : System) (me : Header) : Slots := Function.update s.slots s.current (some { me with state := .Blocked })

/-- The system that goes on with a ready process. -/
def switch (s : System) (t : Slots) (next : Fin MAX_PROCESSES) (h : Header) : System :=
  { s with slots := Function.update t next (some { h with state := .Running }), current := next }

/-- What a step of the system was. -/
inductive Label
  | quiet
  | fork (child : Nat)
  | reap (child code : Nat)
  | block
  | die (code : Nat)
  deriving DecidableEq

/-- One step of the running process, up to the next entry into user mode. -/
inductive Step : System → Label → System → Prop
  | quiet (s : System) : Step s .quiet s
  | fork {s : System} {me : Header} {i : Fin MAX_PROCESSES} (running : s.slots s.current = some me)
      (free : ∀ h, s.slots i = some h → h.state = .Gone) :
      Step s (.fork s.next_pid)
        { s with slots := Function.update s.slots i (some ⟨s.next_pid,me.pid,.Ready⟩), next_pid := s.next_pid+1 }
  | reap {s : System} {me child : Header} {i : Fin MAX_PROCESSES} {code : Nat}
      (running : s.slots s.current = some me) (slot : s.slots i = some child) (mine : child.parent_pid = me.pid)
      (dead : child.state = .Zombie code) :
      Step s (.reap child.pid code) { s with slots := Function.update s.slots i (some { child with state := .Gone }) }
  | block {s : System} {me child next : Header} {i j : Fin MAX_PROCESSES} (running : s.slots s.current = some me)
      (clean : ∀ k h, s.slots k = some h → h.parent_pid = me.pid → ¬ Zombie h)
      (slot : s.slots i = some child) (mine : child.parent_pid = me.pid) (live : Live child)
      (chosen : blockSlots s me j = some next) (ready : next.state = .Ready) :
      Step s .block (switch s (blockSlots s me) j next)
  | die {s : System} {me next : Header} {j : Fin MAX_PROCESSES} {code : Nat} (running : s.slots s.current = some me)
      (chosen : dieSlots s me code j = some next) (ready : next.state = .Ready) :
      Step s (.die code) (switch s (dieSlots s me code) j next)

/-- The running process blocks or dies and the scheduler finds nothing ready; the
    slots it leaves behind. -/
inductive Stuck : System → Slots → Prop
  | block {s : System} {me child : Header} {i : Fin MAX_PROCESSES} (running : s.slots s.current = some me)
      (slot : s.slots i = some child) (mine : child.parent_pid = me.pid) (live : Live child)
      (idle : ∀ j h, blockSlots s me j = some h → h.state ≠ .Ready) : Stuck s (blockSlots s me)
  | die {s : System} {me : Header} {code : Nat} (running : s.slots s.current = some me)
      (idle : ∀ j h, dieSlots s me code j = some h → h.state ≠ .Ready) : Stuck s (dieSlots s me code)

/-! ### The process forest -/

/-- Pids, parents and what a blocked process waits for. -/
structure Forest (s : Slots) (next_pid : Nat) : Prop where
  distinct : ∀ {i j : Fin MAX_PROCESSES} {a b : Header}, s i = some a → s j = some b → a.pid = b.pid → i = j
  positive : ∀ {i : Fin MAX_PROCESSES} {h : Header}, s i = some h → 1 ≤ h.pid
  fresh : ∀ {i : Fin MAX_PROCESSES} {h : Header}, s i = some h → h.pid < next_pid
  parent : ∀ {i : Fin MAX_PROCESSES} {h : Header}, s i = some h → h.state ≠ .Gone → h.pid ≠ 1 →
    h.parent_pid < h.pid ∧ (h.parent_pid = 1 ∨ ∃ j p, s j = some p ∧ p.pid = h.parent_pid ∧ Live p)
  init : ∃ i h, s i = some h ∧ h.pid = 1 ∧ h.parent_pid = 0 ∧ h.state ≠ .Gone
  blocked : ∀ {i : Fin MAX_PROCESSES} {h : Header}, s i = some h → h.state = .Blocked →
    ∃ j c, s j = some c ∧ c.parent_pid = h.pid ∧ Live c

/-- The forest, with exactly the current process running. -/
structure Sound (s : System) : Prop where
  forest : Forest s.slots s.next_pid
  running : ∃ me, s.slots s.current = some me ∧ me.state = .Running
  only : ∀ {i : Fin MAX_PROCESSES} {h : Header}, s.slots i = some h → h.state = .Running → i = s.current

/-- No process is the child of itself, and init is nobody's child. -/
theorem Forest.not_own_child {s : Slots} {n : Nat} (forest : Forest s n) {i j : Fin MAX_PROCESSES} {h c : Header}
    (parent : s i = some h) (child : s j = some c) (mine : c.parent_pid = h.pid) (here : c.state ≠ .Gone) :
    h.pid < c.pid := by
  have positive := forest.positive parent
  by_cases init : c.pid = 1
  · obtain ⟨k,root,slot,pid,orphan,_⟩ := forest.init
    have same : j = k := forest.distinct child slot (by omega)
    subst same
    have equal : c = root := Option.some.inj (child.symm.trans slot)
    subst equal
    omega
  · have below := (forest.parent child here init).1
    omega

/-- With distinct pids, waking changes every blocked process with the pid. -/
theorem wakeSlots_eq {s : Slots} (p : Nat)
    (distinct : ∀ {i j : Fin MAX_PROCESSES} {a b : Header}, s i = some a → s j = some b → a.pid = b.pid → i = j) :
    wakeSlots s p = fun i => (s i).map fun h => if h.pid = p ∧ h.state = .Blocked then { h with state := .Ready } else h := by
  funext i
  unfold wakeSlots
  cases found : (List.finRange MAX_PROCESSES).find? (waitingHeader p s) with
  | none =>
    have nobody := List.find?_eq_none.mp found i (List.mem_finRange i)
    cases slot : s i with
    | none => simp [slot]
    | some h =>
      simp only [waitingHeader,slot] at nobody
      simp only [Option.map_some,Option.some.injEq,slot]
      rw [if_neg (by simpa using nobody)]
  | some j =>
    have waits := List.find?_some found
    unfold waitingHeader at waits
    cases slot : s j with
    | none => simp [slot] at waits
    | some w =>
      simp only [slot,Bool.and_eq_true,beq_iff_eq] at waits
      by_cases same : i = j
      · subst same
        simp [slot,waits]
      · simp only [Function.update_of_ne same]
        cases other : s i with
        | none => rfl
        | some h =>
          have different : ¬ (h.pid = p ∧ h.state = .Blocked) := by
            rintro ⟨pid,_⟩
            exact same (distinct other slot (pid.trans waits.1.symm))
          simp [different]

/-- The header that a death makes of another process. -/
def afterDeath (me : Header) (h : Header) : Header :=
  if (adoptHeader me.pid h).pid = me.parent_pid ∧ (adoptHeader me.pid h).state = .Blocked then
    { adoptHeader me.pid h with state := .Ready }
  else adoptHeader me.pid h

theorem adoptHeader_pid (p : Nat) (h : Header) : (adoptHeader p h).pid = h.pid := by
  unfold adoptHeader; split <;> rfl

theorem adoptHeader_state (p : Nat) (h : Header) : (adoptHeader p h).state = h.state := by
  unfold adoptHeader; split <;> rfl

theorem afterDeath_pid (me h : Header) : (afterDeath me h).pid = h.pid := by
  unfold afterDeath
  split
  · exact adoptHeader_pid me.pid h
  · exact adoptHeader_pid me.pid h

theorem afterDeath_parent (me h : Header) : (afterDeath me h).parent_pid = (adoptHeader me.pid h).parent_pid := by
  unfold afterDeath; split <;> rfl

theorem afterDeath_state (me h : Header) : (afterDeath me h).state =
    if h.pid = me.parent_pid ∧ h.state = .Blocked then .Ready else h.state := by
  unfold afterDeath
  simp only [adoptHeader_pid,adoptHeader_state]
  split
  · rfl
  · exact adoptHeader_state me.pid h

theorem afterDeath_live {me h : Header} : Live (afterDeath me h) ↔ Live h := by
  unfold Live
  rw [afterDeath_state]
  split
  · rename_i both; simp [both.2]
  · rfl

theorem afterDeath_zombie {me h : Header} : Zombie (afterDeath me h) ↔ Zombie h := by
  unfold Zombie
  rw [afterDeath_state]
  split
  · rename_i both; simp [both.2]
  · rfl

theorem afterDeath_gone {me h : Header} : (afterDeath me h).state = .Gone ↔ h.state = .Gone := by
  rw [afterDeath_state]
  split
  · rename_i both; simp [both.2]
  · rfl

/-- A death, slot by slot: the running process is a zombie with its own parent,
    every other process is adopted or woken. -/
theorem dieSlots_eq {s : System} (sound : Sound s) {me : Header} (running : s.slots s.current = some me) (code : Nat)
    (i : Fin MAX_PROCESSES) :
    dieSlots s me code i =
      if i = s.current then some { me with state := .Zombie code } else (s.slots i).map (afterDeath me) := by
  have self : adoptHeader me.pid me = me := by
    unfold adoptHeader
    by_cases own : me.parent_pid = me.pid ∧ me.state ≠ .Gone
    · have := sound.forest.not_own_child running running own.1 own.2
      omega
    · rw [if_neg own]
  unfold dieSlots
  rw [self]
  rw [wakeSlots_eq]
  · by_cases mine : i = s.current
    · simp [mine]
    · simp only [Function.update_of_ne mine,mine,if_false,Option.map_map]
      rfl
  · -- Adoption and death keep every pid where it is.
    have pids : ∀ {k : Fin MAX_PROCESSES} {a : Header},
        Function.update (fun i => (s.slots i).map (adoptHeader me.pid)) s.current
          (some { me with state := .Zombie code }) k = some a → ∃ old, s.slots k = some old ∧ old.pid = a.pid := by
      intro k a slot
      by_cases mine : k = s.current
      · subst mine
        simp only [Function.update_self,Option.some.injEq] at slot
        exact ⟨me,running,by rw [← slot]⟩
      · simp only [Function.update_of_ne mine,Option.map_eq_some_iff] at slot
        obtain ⟨old,here,equal⟩ := slot
        exact ⟨old,here,by rw [← equal,adoptHeader_pid]⟩
    intro k l a b first second same
    obtain ⟨x,hx,px⟩ := pids first
    obtain ⟨y,hy,py⟩ := pids second
    exact sound.forest.distinct hx hy (by omega)

/-- The process in a slot after a death was there before. -/
theorem dieSlots_some {s : System} (sound : Sound s) {me : Header} (running : s.slots s.current = some me) {code : Nat}
    {i : Fin MAX_PROCESSES} {h : Header} (slot : dieSlots s me code i = some h) :
    (i = s.current ∧ h = { me with state := .Zombie code }) ∨
      (i ≠ s.current ∧ ∃ old, s.slots i = some old ∧ h = afterDeath me old) := by
  rw [dieSlots_eq sound running code i] at slot
  by_cases mine : i = s.current
  · left
    rw [if_pos mine] at slot
    exact ⟨mine,(Option.some.inj slot).symm⟩
  · right
    rw [if_neg mine,Option.map_eq_some_iff] at slot
    obtain ⟨old,here,equal⟩ := slot
    exact ⟨mine,old,here,equal.symm⟩

/-! ### Every step keeps the forest -/

theorem forest_fork {s : System} (sound : Sound s) {me : Header} {i : Fin MAX_PROCESSES}
    (running : s.slots s.current = some me) (free : ∀ h, s.slots i = some h → h.state = .Gone) :
    Forest (Function.update s.slots i (some ⟨s.next_pid,me.pid,.Ready⟩)) (s.next_pid+1) := by
  obtain ⟨forest,⟨me',running',isRunning⟩,only⟩ := sound
  have sameMe : me' = me := Option.some.inj (running'.symm.trans running)
  subst sameMe
  -- A process that is not gone keeps its slot.
  have keeps : ∀ {k : Fin MAX_PROCESSES} {h : Header}, s.slots k = some h → h.state ≠ .Gone →
      Function.update s.slots i (some ⟨s.next_pid,me'.pid,.Ready⟩) k = some h := by
    intro k h slot here
    have other : k ≠ i := by
      rintro rfl
      exact here (free h slot)
    rw [Function.update_of_ne other,slot]
  have cases : ∀ {k : Fin MAX_PROCESSES} {h : Header},
      Function.update s.slots i (some ⟨s.next_pid,me'.pid,.Ready⟩) k = some h →
        (k = i ∧ h = ⟨s.next_pid,me'.pid,.Ready⟩) ∨ (k ≠ i ∧ s.slots k = some h) := by
    intro k h slot
    by_cases same : k = i
    · subst same
      left
      simpa [eq_comm] using slot
    · right
      exact ⟨same,by simpa [Function.update_of_ne same] using slot⟩
  have live : Live me' := .inr (.inl isRunning)
  refine ⟨?_,?_,?_,?_,?_,?_⟩
  · intro k l a b first second same
    rcases cases first with ⟨rfl,rfl⟩ | ⟨other,old⟩
    · rcases cases second with ⟨rfl,rfl⟩ | ⟨other',old'⟩
      · rfl
      · have := forest.fresh old'
        simp only at same
        omega
    · rcases cases second with ⟨rfl,rfl⟩ | ⟨other',old'⟩
      · have := forest.fresh old
        simp only at same
        omega
      · exact forest.distinct old old' same
  · intro k h slot
    rcases cases slot with ⟨_,rfl⟩ | ⟨_,old⟩
    · have := forest.positive running
      have := forest.fresh running
      simp only
      omega
    · exact forest.positive old
  · intro k h slot
    rcases cases slot with ⟨_,rfl⟩ | ⟨_,old⟩
    · simp
    · exact Nat.lt_succ_of_lt (forest.fresh old)
  · intro k h slot here notInit
    rcases cases slot with ⟨_,rfl⟩ | ⟨_,old⟩
    · exact ⟨forest.fresh running,.inr ⟨s.current,me',keeps running (live_not_gone live),rfl,live⟩⟩
    · obtain ⟨below,known⟩ := forest.parent old here notInit
      refine ⟨below,?_⟩
      rcases known with one | ⟨j,p,slotP,pid,liveP⟩
      · exact .inl one
      · exact .inr ⟨j,p,keeps slotP (live_not_gone liveP),pid,liveP⟩
  · obtain ⟨j,h,slot,pid,orphan,here⟩ := forest.init
    exact ⟨j,h,keeps slot here,pid,orphan,here⟩
  · intro k h slot isBlocked
    rcases cases slot with ⟨_,rfl⟩ | ⟨_,old⟩
    · simp at isBlocked
    · obtain ⟨j,c,slotC,mine,liveC⟩ := forest.blocked old isBlocked
      exact ⟨j,c,keeps slotC (live_not_gone liveC),mine,liveC⟩

/-- Changing the state of one process, not to a live one into a dead one and not
    to a blocked one, keeps the forest. -/
theorem forest_restate {s : Slots} {n : Nat} (forest : Forest s n) {i : Fin MAX_PROCESSES} {h : Header}
    (slot : s i = some h) (state : ProcessState) (alive : Live h → Live { h with state })
    (stays : h.pid = 1 → state ≠ .Gone) (returns : state ≠ .Gone → h.state ≠ .Gone)
    (waits : state = .Blocked → ∃ j c, s j = some c ∧ c.parent_pid = h.pid ∧ Live c) :
    Forest (Function.update s i (some { h with state })) n := by
  have cases : ∀ {k : Fin MAX_PROCESSES} {a : Header}, Function.update s i (some { h with state }) k = some a →
      (k = i ∧ a = { h with state }) ∨ (k ≠ i ∧ s k = some a) := by
    intro k a new
    by_cases same : k = i
    · subst same
      left
      simpa [eq_comm] using new
    · right
      exact ⟨same,by simpa [Function.update_of_ne same] using new⟩
  have lives : ∀ {k : Fin MAX_PROCESSES} {a : Header}, s k = some a → Live a →
      ∃ b, Function.update s i (some { h with state }) k = some b ∧ b.pid = a.pid ∧ b.parent_pid = a.parent_pid ∧ Live b := by
    intro k a old live
    by_cases same : k = i
    · subst same
      have equal : h = a := Option.some.inj (slot.symm.trans old)
      subst equal
      exact ⟨{ h with state },by simp,rfl,rfl,alive live⟩
    · exact ⟨a,by rw [Function.update_of_ne same,old],rfl,rfl,live⟩
  have olds : ∀ {k : Fin MAX_PROCESSES} {a : Header}, Function.update s i (some { h with state }) k = some a →
      ∃ b, s k = some b ∧ b.pid = a.pid ∧ b.parent_pid = a.parent_pid := by
    intro k a new
    rcases cases new with ⟨rfl,rfl⟩ | ⟨_,old⟩
    · exact ⟨h,slot,rfl,rfl⟩
    · exact ⟨a,old,rfl,rfl⟩
  refine ⟨?_,?_,?_,?_,?_,?_⟩
  · intro k l a b first second same
    obtain ⟨x,hx,px,_⟩ := olds first
    obtain ⟨y,hy,py,_⟩ := olds second
    exact forest.distinct hx hy (by omega)
  · intro k a new
    obtain ⟨b,old,pid,_⟩ := olds new
    rw [← pid]
    exact forest.positive old
  · intro k a new
    obtain ⟨b,old,pid,_⟩ := olds new
    rw [← pid]
    exact forest.fresh old
  · intro k a new here notInit
    have known : a.parent_pid < a.pid ∧ (a.parent_pid = 1 ∨ ∃ j p, s j = some p ∧ p.pid = a.parent_pid ∧ Live p) := by
      rcases cases new with ⟨rfl,rfl⟩ | ⟨_,old⟩
      · have found := forest.parent slot (returns here) notInit
        exact found
      · exact forest.parent old here notInit
    refine ⟨known.1,?_⟩
    rcases known.2 with one | ⟨j,p,slotP,pid,live⟩
    · exact .inl one
    · obtain ⟨q,slotQ,pidQ,_,liveQ⟩ := lives slotP live
      exact .inr ⟨j,q,slotQ,pidQ.trans pid,liveQ⟩
  · obtain ⟨j,a,slotA,pid,orphan,here⟩ := forest.init
    by_cases same : j = i
    · subst same
      have equal : h = a := Option.some.inj (slot.symm.trans slotA)
      subst equal
      exact ⟨j,{ h with state },by simp,pid,orphan,stays pid⟩
    · exact ⟨j,a,by rw [Function.update_of_ne same,slotA],pid,orphan,here⟩
  · intro k a new isBlocked
    have known : ∃ j c, s j = some c ∧ c.parent_pid = a.pid ∧ Live c := by
      rcases cases new with ⟨rfl,rfl⟩ | ⟨_,old⟩
      · exact waits isBlocked
      · exact forest.blocked old isBlocked
    obtain ⟨j,c,slotC,mine,live⟩ := known
    obtain ⟨d,slotD,_,parentD,liveD⟩ := lives slotC live
    exact ⟨j,d,slotD,parentD.trans mine,liveD⟩

theorem forest_die {s : System} (sound : Sound s) {me : Header} (running : s.slots s.current = some me) (code : Nat) :
    Forest (dieSlots s me code) s.next_pid := by
  have forest := sound.forest
  have meRuns : me.state = .Running := by
    obtain ⟨me',running',isRunning⟩ := sound.running
    have same : me' = me := Option.some.inj (running'.symm.trans running)
    exact same ▸ isRunning
  have value := dieSlots_eq sound running code
  have olds : ∀ {k : Fin MAX_PROCESSES} {a : Header}, dieSlots s me code k = some a →
      ∃ b, s.slots k = some b ∧ b.pid = a.pid := by
    intro k a new
    rcases dieSlots_some sound running new with ⟨rfl,rfl⟩ | ⟨_,old,slot,rfl⟩
    · exact ⟨me,running,rfl⟩
    · exact ⟨old,slot,(afterDeath_pid me old).symm⟩
  -- Every other live process is still there and alive.
  have lives : ∀ {k : Fin MAX_PROCESSES} {a : Header}, s.slots k = some a → k ≠ s.current → Live a →
      dieSlots s me code k = some (afterDeath me a) ∧ Live (afterDeath me a) := by
    intro k a slot other live
    refine ⟨?_,afterDeath_live.mpr live⟩
    rw [value,if_neg other,slot]
    rfl
  refine ⟨?_,?_,?_,?_,?_,?_⟩
  · intro k l a b first second same
    obtain ⟨x,hx,px⟩ := olds first
    obtain ⟨y,hy,py⟩ := olds second
    exact forest.distinct hx hy (by omega)
  · intro k a new
    obtain ⟨b,old,pid⟩ := olds new
    rw [← pid]
    exact forest.positive old
  · intro k a new
    obtain ⟨b,old,pid⟩ := olds new
    rw [← pid]
    exact forest.fresh old
  · intro k a new here notInit
    -- A live parent other than the dead process stays a live parent.
    have stays : ∀ p, p ≠ me.pid → (p = 1 ∨ ∃ j q, s.slots j = some q ∧ q.pid = p ∧ Live q) →
        (p = 1 ∨ ∃ j q, dieSlots s me code j = some q ∧ q.pid = p ∧ Live q) := by
      intro p different known
      rcases known with one | ⟨j,q,slotQ,pid,live⟩
      · exact .inl one
      · have other : j ≠ s.current := by
          rintro rfl
          have equal : me = q := Option.some.inj (running.symm.trans slotQ)
          subst equal
          exact different pid.symm
        obtain ⟨slot,alive⟩ := lives slotQ other live
        exact .inr ⟨j,_,slot,(afterDeath_pid me q).trans pid,alive⟩
    rcases dieSlots_some sound running new with ⟨rfl,rfl⟩ | ⟨other,old,slot,rfl⟩
    · obtain ⟨below,known⟩ := forest.parent running (by simp [meRuns]) notInit
      exact ⟨below,stays me.parent_pid (by omega) known⟩
    · have hereOld : old.state ≠ .Gone := fun gone => here (afterDeath_gone.mpr gone)
      rw [afterDeath_pid] at notInit
      obtain ⟨below,known⟩ := forest.parent slot hereOld notInit
      rw [afterDeath_pid,afterDeath_parent]
      by_cases orphan : old.parent_pid = me.pid
      · have one : (adoptHeader me.pid old).parent_pid = 1 := by
          unfold adoptHeader
          rw [if_pos ⟨orphan,hereOld⟩]
        rw [one]
        have := forest.positive slot
        exact ⟨by omega,.inl rfl⟩
      · have same : (adoptHeader me.pid old).parent_pid = old.parent_pid := by
          unfold adoptHeader
          rw [if_neg (fun both => orphan both.1)]
        rw [same]
        exact ⟨below,stays _ orphan known⟩
  · obtain ⟨j,a,slot,pid,orphan,here⟩ := forest.init
    by_cases mine : j = s.current
    · subst mine
      have equal : me = a := Option.some.inj (running.symm.trans slot)
      subst equal
      exact ⟨s.current,{ me with state := .Zombie code },by rw [value,if_pos rfl],pid,orphan,by simp⟩
    · refine ⟨j,afterDeath me a,by rw [value,if_neg mine,slot]; rfl,?_,?_,?_⟩
      · rw [afterDeath_pid,pid]
      · have positive := forest.positive running
        rw [afterDeath_parent]
        unfold adoptHeader
        rw [if_neg (by omega),orphan]
      · exact fun gone => here (afterDeath_gone.mp gone)
  · intro k a new isBlocked
    rcases dieSlots_some sound running new with ⟨rfl,rfl⟩ | ⟨other,old,slot,rfl⟩
    · simp at isBlocked
    · rw [afterDeath_state] at isBlocked
      split at isBlocked
      · simp at isBlocked
      · rename_i asleep
        obtain ⟨j,c,slotC,mine,live⟩ := forest.blocked slot isBlocked
        -- The child it waits for is not the dead process, which would have woken it.
        have otherC : j ≠ s.current := by
          rintro rfl
          have equal : me = c := Option.some.inj (running.symm.trans slotC)
          subst equal
          exact asleep ⟨mine.symm,isBlocked⟩
        obtain ⟨slotD,liveD⟩ := lives slotC otherC live
        refine ⟨j,_,slotD,?_,liveD⟩
        rw [afterDeath_pid,afterDeath_parent]
        unfold adoptHeader
        rw [if_neg,mine]
        rintro ⟨orphan,_⟩
        exact other (forest.distinct slot running (by omega))

theorem forest_block {s : System} (sound : Sound s) {me child : Header} {i : Fin MAX_PROCESSES}
    (running : s.slots s.current = some me) (slot : s.slots i = some child) (mine : child.parent_pid = me.pid)
    (live : Live child) : Forest (blockSlots s me) s.next_pid :=
  forest_restate sound.forest running .Blocked (fun _ => .inr (.inr rfl)) (by simp)
    (fun _ gone => by
      obtain ⟨me',running',isRunning⟩ := sound.running
      have same : me' = me := Option.some.inj (running'.symm.trans running)
      rw [same,gone] at isRunning
      cases isRunning)
    (fun _ => ⟨i,child,slot,mine,live⟩)

/-- A ready process that starts to run, when nothing else does. -/
theorem switch_sound {s : System} {t : Slots} {j : Fin MAX_PROCESSES} {next : Header} (forest : Forest t s.next_pid)
    (chosen : t j = some next) (ready : next.state = .Ready)
    (idle : ∀ {i : Fin MAX_PROCESSES} {h : Header}, t i = some h → h.state ≠ .Running) :
    Sound (switch s t j next) := by
  refine ⟨?_,?_,?_⟩
  · exact forest_restate forest chosen .Running (fun _ => .inr (.inl rfl)) (by simp) (by simp [ready]) (by simp)
  · exact ⟨{ next with state := .Running },by simp [switch],rfl⟩
  · intro i h slot isRunning
    by_cases same : i = j
    · exact same
    · have old : t i = some h := by simpa [switch,Function.update_of_ne same] using slot
      exact absurd isRunning (idle old)

theorem blockSlots_idle {s : System} (sound : Sound s) {me : Header} {i : Fin MAX_PROCESSES} {h : Header}
    (slot : blockSlots s me i = some h) : h.state ≠ .Running := by
  intro isRunning
  by_cases mine : i = s.current
  · subst mine
    have equal : { me with state := .Blocked } = h := by simpa [blockSlots] using slot
    rw [← equal] at isRunning
    cases isRunning
  · have old : s.slots i = some h := by simpa [blockSlots,Function.update_of_ne mine] using slot
    exact mine (sound.only old isRunning)

theorem dieSlots_idle {s : System} (sound : Sound s) {me : Header} (running : s.slots s.current = some me) {code : Nat}
    {i : Fin MAX_PROCESSES} {h : Header} (slot : dieSlots s me code i = some h) : h.state ≠ .Running := by
  intro isRunning
  rcases dieSlots_some sound running slot with ⟨_,rfl⟩ | ⟨other,old,slotOld,rfl⟩
  · cases isRunning
  · rw [afterDeath_state] at isRunning
    split at isRunning
    · cases isRunning
    · exact other (sound.only slotOld isRunning)

/-- Every step keeps the shape of the process table. -/
theorem step_sound {s s' : System} {label : Label} (sound : Sound s) (step : Step s label s') : Sound s' := by
  cases step with
  | quiet => exact sound
  | @fork me i running free =>
    refine ⟨forest_fork sound running free,?_,?_⟩
    · obtain ⟨me',running',isRunning⟩ := sound.running
      have other : s.current ≠ i := by
        rintro rfl
        have gone := free me' running'
        rw [gone] at isRunning
        cases isRunning
      exact ⟨me',by simp only [Function.update_of_ne other,running'],isRunning⟩
    · intro k h slot isRunning
      by_cases same : k = i
      · subst same
        have equal : (⟨s.next_pid,me.pid,.Ready⟩ : Header) = h := by simpa using slot
        rw [← equal] at isRunning
        cases isRunning
      · exact sound.only (by simpa [Function.update_of_ne same] using slot) isRunning
  | @reap me child i code running slot mine dead =>
    have positive := sound.forest.positive running
    obtain ⟨me',running',isRunning⟩ := sound.running
    have other : s.current ≠ i := by
      rintro rfl
      have equal : child = me' := Option.some.inj (slot.symm.trans running')
      rw [← equal,dead] at isRunning
      cases isRunning
    refine ⟨?_,⟨me',by simp only [Function.update_of_ne other,running'],isRunning⟩,?_⟩
    · refine forest_restate sound.forest slot .Gone ?_ ?_ (by simp) (by simp)
      · intro live
        exact absurd ⟨code,dead⟩ (live_not_zombie live)
      · intro init
        have below := sound.forest.not_own_child running slot mine (by simp [dead])
        omega
    · intro k h slotK runs
      by_cases same : k = i
      · subst same
        have equal : { child with state := .Gone } = h := by simpa using slotK
        rw [← equal] at runs
        cases runs
      · exact sound.only (by simpa [Function.update_of_ne same] using slotK) runs
  | block running _ slot mine live chosen ready =>
    exact switch_sound (forest_block sound running slot mine live) chosen ready (blockSlots_idle sound)
  | die running chosen ready =>
    exact switch_sound (forest_die sound running _) chosen ready (dieSlots_idle sound running)

/-! ### Where processes come from -/

/-- A switch makes the process that it goes on with run and changes nothing else. -/
theorem switch_back {s : System} {t : Slots} {j i : Fin MAX_PROCESSES} {next h' : Header} (chosen : t j = some next)
    (ready : next.state = .Ready) (slot' : (switch s t j next).slots i = some h') :
    ∃ h, t i = some h ∧ h'.pid = h.pid ∧ h'.parent_pid = h.parent_pid ∧
      (∀ code, h'.state = .Zombie code → h.state = .Zombie code) ∧ (h.state = .Gone → h'.state = .Gone) := by
  unfold switch at slot'
  dsimp only at slot'
  by_cases same : i = j
  · rw [same,Function.update_self,Option.some.injEq] at slot'
    rw [← slot',same]
    refine ⟨next,chosen,rfl,rfl,fun _ dead => ?_,fun gone => ?_⟩
    · cases dead
    · rw [ready] at gone
      cases gone
  · rw [Function.update_of_ne same] at slot'
    exact ⟨h',slot',rfl,rfl,fun _ dead => dead,id⟩

/-- A process after a step is one from before it, with the same pid: its parent is the same or it was adopted from the
    process that died, it is a zombie if it was one or died in the step, and it is gone if it was or was reaped. A new
    process is the child of a fork. -/
theorem step_back {s s' : System} {label : Label} (sound : Sound s) (step : Step s label s') {i : Fin MAX_PROCESSES}
    {h' : Header} (slot' : s'.slots i = some h') :
    (∃ h, s.slots i = some h ∧ h'.pid = h.pid ∧
      (h'.parent_pid = h.parent_pid ∨
        (h'.parent_pid = 1 ∧ ∃ me code, s.slots s.current = some me ∧ h.parent_pid = me.pid ∧ label = .die code)) ∧
      (∀ code, h'.state = .Zombie code → h.state = .Zombie code ∨ (i = s.current ∧ label = .die code)) ∧
      (h.state = .Gone → h'.state = .Gone)) ∨
    (∃ me, s.slots s.current = some me ∧ label = .fork h'.pid ∧ h'.pid = s.next_pid ∧ h'.parent_pid = me.pid ∧
      h'.state = .Ready) := by
  cases step with
  | quiet => exact .inl ⟨h',slot',rfl,.inl rfl,fun _ dead => .inl dead,id⟩
  | @fork me j running free =>
    dsimp only at slot'
    by_cases same : i = j
    · rw [same,Function.update_self,Option.some.injEq] at slot'
      rw [← slot']
      exact .inr ⟨me,running,rfl,rfl,rfl,rfl⟩
    · rw [Function.update_of_ne same] at slot'
      exact .inl ⟨h',slot',rfl,.inl rfl,fun _ dead => .inl dead,id⟩
  | @reap me child j code running slot mine dead =>
    dsimp only at slot'
    by_cases same : i = j
    · rw [same,Function.update_self,Option.some.injEq] at slot'
      rw [← slot',same]
      refine .inl ⟨child,slot,rfl,.inl rfl,fun _ other => ?_,fun _ => rfl⟩
      cases other
    · rw [Function.update_of_ne same] at slot'
      exact .inl ⟨h',slot',rfl,.inl rfl,fun _ dead => .inl dead,id⟩
  | @block me child next _ j running clean slot mine live chosen ready =>
    obtain ⟨h1,slot1,pid,parent,dead,gone⟩ := switch_back chosen ready slot'
    by_cases same : i = s.current
    · rw [same,blockSlots,Function.update_self,Option.some.injEq] at slot1
      rw [← slot1] at pid parent dead gone
      refine .inl ⟨me,by rw [same]; exact running,pid,.inl parent,fun code is => ?_,fun is => ?_⟩
      · cases dead code is
      · obtain ⟨me',running',awake⟩ := sound.running
        rw [running,Option.some.injEq] at running'
        rw [running',awake] at is
        cases is
    · rw [blockSlots,Function.update_of_ne same] at slot1
      exact .inl ⟨h1,slot1,pid,.inl parent,fun code is => .inl (dead code is),gone⟩
  | @die me next j code running chosen ready =>
    obtain ⟨h1,slot1,pid,parent,dead,gone⟩ := switch_back chosen ready slot'
    rcases dieSlots_some sound running slot1 with ⟨here,rfl⟩ | ⟨_,h,slot,rfl⟩
    · refine .inl ⟨me,by rw [here]; exact running,pid,.inl parent,fun code' is => .inr ⟨here,?_⟩,fun is => ?_⟩
      · have same := dead code' is
        injection same with same
        rw [same]
      · obtain ⟨me',running',awake⟩ := sound.running
        rw [running,Option.some.injEq] at running'
        rw [running',awake] at is
        cases is
    · rw [afterDeath_pid] at pid
      rw [afterDeath_parent] at parent
      refine .inl ⟨h,slot,pid,?_,fun code' is => .inl ?_,fun is => gone (afterDeath_gone.mpr is)⟩
      · unfold adoptHeader at parent
        split at parent
        · rename_i orphan
          exact .inr ⟨parent,me,code,running,orphan.1,rfl⟩
        · exact .inl parent
      · have same := dead code' is
        rw [afterDeath_state] at same
        split at same
        · cases same
        · exact same

/-- A process that is not ready is not switched to. -/
theorem switch_stays {s : System} {t : Slots} {j i : Fin MAX_PROCESSES} {next h : Header} (chosen : t j = some next)
    (ready : next.state = .Ready) (slot : t i = some h) (other : h.state ≠ .Ready) : (switch s t j next).slots i = some h := by
  have apart : i ≠ j := by
    rintro rfl
    rw [chosen,Option.some.injEq] at slot
    rw [← slot] at other
    exact other ready
  rw [← slot]
  exact Function.update_of_ne apart _ _

/-- A zombie stays one, with its exit code, until it is reaped. -/
theorem step_zombie {s s' : System} {label : Label} (sound : Sound s) (step : Step s label s') {i : Fin MAX_PROCESSES}
    {h : Header} {code : Nat} (slot : s.slots i = some h) (dead : h.state = .Zombie code) :
    ∃ h', s'.slots i = some h' ∧ (h'.state = .Zombie code ∨ h'.state = .Gone) := by
  have away : i ≠ s.current := by
    rintro rfl
    obtain ⟨me,running,awake⟩ := sound.running
    rw [slot,Option.some.injEq] at running
    rw [running,awake] at dead
    cases dead
  cases step with
  | quiet => exact ⟨h,slot,.inl dead⟩
  | @fork me j running free =>
    have apart : i ≠ j := by
      rintro rfl
      rw [free h slot] at dead
      cases dead
    exact ⟨h,(Function.update_of_ne apart _ _).trans slot,.inl dead⟩
  | @reap me child j _ running slotC mine deadC =>
    by_cases same : i = j
    · subst same
      exact ⟨_,Function.update_self _ _ _,.inr rfl⟩
    · exact ⟨h,(Function.update_of_ne same _ _).trans slot,.inl dead⟩
  | @block me child next _ j running clean _ mine live chosen ready =>
    have slot1 : blockSlots s me i = some h := (Function.update_of_ne away _ _).trans slot
    exact ⟨h,switch_stays chosen ready slot1 (by rw [dead]; simp),.inl dead⟩
  | @die me next j code' running chosen ready =>
    have slot1 : dieSlots s me code' i = some (afterDeath me h) := by
      rw [dieSlots_eq sound running,if_neg away,slot]
      rfl
    have state : (afterDeath me h).state = .Zombie code := by
      rw [afterDeath_state,if_neg (by rw [dead]; simp)]
      exact dead
    exact ⟨_,switch_stays chosen ready slot1 (by rw [state]; simp),.inl state⟩

/-- The process that dies is a zombie with its exit code. -/
theorem step_die {s s' : System} {code : Nat} (sound : Sound s) (step : Step s (.die code) s') {me : Header}
    (running : s.slots s.current = some me) : ∃ h', s'.slots s.current = some h' ∧ h'.pid = me.pid ∧ h'.state = .Zombie code := by
  cases step with
  | @die me' next j _ running' chosen ready =>
    rw [running,Option.some.injEq] at running'
    rw [← running'] at chosen ⊢
    have slot : dieSlots s me code s.current = some { me with state := .Zombie code } := by
      rw [dieSlots_eq sound running,if_pos rfl]
    exact ⟨_,switch_stays chosen ready slot (by simp),rfl,rfl⟩

theorem step_next_pid {s s' : System} {label : Label} (step : Step s label s') : s.next_pid ≤ s'.next_pid := by
  cases step with
  | quiet => exact le_refl _
  | fork => exact Nat.le_succ _
  | reap => exact le_refl _
  | block => exact le_refl _
  | die => exact le_refl _

/-! ### Deadlock freedom -/

/-- In a forest where nothing runs or is ready, nothing is blocked either: a blocked
    process with the largest pid would wait for a child with a larger one. -/
theorem forest_asleep {s : Slots} {n : Nat} (forest : Forest s n)
    (idle : ∀ i h, s i = some h → h.state ≠ .Running) (unready : ∀ i h, s i = some h → h.state ≠ .Ready) :
    ∀ i h, s i = some h → ¬ Live h := by
  have descend : ∀ (k : Nat) (i : Fin MAX_PROCESSES) (h : Header), n ≤ h.pid+k → s i = some h → ¬ Live h := by
    intro k
    induction k with
    | zero =>
      intro i h above slot
      have := forest.fresh slot
      omega
    | succ k ih =>
      intro i h above slot live
      rcases live with isReady | isRunning | isBlocked
      · exact unready i h slot isReady
      · exact idle i h slot isRunning
      · obtain ⟨j,c,slotC,mine,liveC⟩ := forest.blocked slot isBlocked
        have below := forest.not_own_child slot slotC mine (live_not_gone liveC)
        exact ih j c (by omega) slotC liveC
  intro i h slot
  exact descend n i h (by omega) slot

/-- The scheduler gives up only when no process is left to run. -/
theorem stuck_dead {s : System} {t : Slots} (sound : Sound s) (stuck : Stuck s t) :
    ∀ i h, t i = some h → Zombie h ∨ h.state = .Gone := by
  have dead : ∀ i h, t i = some h → ¬ Live h := by
    cases stuck with
    | block running slot mine live idle =>
      exact forest_asleep (forest_block sound running slot mine live) (fun i h slot => blockSlots_idle sound slot) idle
    | die running idle =>
      exact forest_asleep (forest_die sound running _) (fun i h slot => dieSlots_idle sound running slot) idle
  intro i h slot
  rcases state_cases h with live | other
  · exact absurd live (dead i h slot)
  · exact other

/-! ### Wakeups -/

/-- No blocked process has a zombie child. -/
def NoLost (s : System) : Prop :=
  ∀ i j h c, s.slots i = some h → h.state = .Blocked → s.slots j = some c → c.parent_pid = h.pid → ¬ Zombie c

/-- The running process has a zombie child and another parent than init, and init
    is blocked: its death hands init the zombie without waking it. -/
def Hidden (s : System) : Prop :=
  ∃ me i c j init, s.slots s.current = some me ∧ s.slots i = some c ∧ c.parent_pid = me.pid ∧ Zombie c ∧
    me.parent_pid ≠ 1 ∧ s.slots j = some init ∧ init.pid = 1 ∧ init.state = .Blocked

theorem noLost_switch {s : System} {t : Slots} {j : Fin MAX_PROCESSES} {next : Header} (chosen : t j = some next)
    (kept : ∀ i k h c, t i = some h → h.state = .Blocked → t k = some c → c.parent_pid = h.pid → ¬ Zombie c) :
    NoLost (switch s t j next) := by
  have olds : ∀ {k : Fin MAX_PROCESSES} {a : Header}, (switch s t j next).slots k = some a →
      ∃ b, t k = some b ∧ b.pid = a.pid ∧ b.parent_pid = a.parent_pid ∧ (a.state = b.state ∨ a.state = .Running) := by
    intro k a slot
    by_cases same : k = j
    · subst same
      have equal : { next with state := .Running } = a := by simpa [switch] using slot
      exact ⟨next,chosen,by rw [← equal],by rw [← equal],.inr (by rw [← equal])⟩
    · exact ⟨a,by simpa [switch,Function.update_of_ne same] using slot,rfl,rfl,.inl rfl⟩
  intro i k h c slotH isBlocked slotC mine ⟨code,zombie⟩
  obtain ⟨h',oldH,pidH,_,stateH⟩ := olds slotH
  obtain ⟨c',oldC,_,parentC,stateC⟩ := olds slotC
  have blockedH : h'.state = .Blocked := by
    rcases stateH with same | runs
    · rw [← same]; exact isBlocked
    · rw [runs] at isBlocked; cases isBlocked
  have zombieC : Zombie c' := by
    rcases stateC with same | runs
    · exact ⟨code,by rw [← same]; exact zombie⟩
    · rw [runs] at zombie; cases zombie
  exact kept i k h' c' oldH blockedH oldC (by omega) zombieC

/-- A step loses no wakeup, unless it is a death that hides a zombie from init. -/
theorem step_noLost {s s' : System} {label : Label} (sound : Sound s) (kept : NoLost s)
    (seen : ∀ code, label = .die code → ¬ Hidden s) (step : Step s label s') : NoLost s' := by
  cases step with
  | quiet => exact kept
  | @fork me i running free =>
    intro a b h c slotH isBlocked slotC mine zombie
    have oldH : s.slots a = some h := by
      by_cases same : a = i
      · subst same
        have equal : (⟨s.next_pid,me.pid,.Ready⟩ : Header) = h := by simpa using slotH
        rw [← equal] at isBlocked
        cases isBlocked
      · simpa [Function.update_of_ne same] using slotH
    have oldC : s.slots b = some c := by
      by_cases same : b = i
      · subst same
        have equal : (⟨s.next_pid,me.pid,.Ready⟩ : Header) = c := by simpa using slotC
        obtain ⟨code,dead⟩ := zombie
        rw [← equal] at dead
        cases dead
      · simpa [Function.update_of_ne same] using slotC
    exact kept a b h c oldH isBlocked oldC mine zombie
  | @reap me child i code running slot mine dead =>
    intro a b h c slotH isBlocked slotC mineC zombie
    have olds : ∀ {k : Fin MAX_PROCESSES} {x : Header},
        Function.update s.slots i (some { child with state := .Gone }) k = some x → x.state ≠ .Gone → s.slots k = some x := by
      intro k x new here
      by_cases same : k = i
      · subst same
        have equal : { child with state := .Gone } = x := by simpa using new
        rw [← equal] at here
        exact absurd rfl here
      · simpa [Function.update_of_ne same] using new
    obtain ⟨left,zombieC⟩ := zombie
    exact kept a b h c (olds slotH (by simp [isBlocked])) isBlocked (olds slotC (by simp [zombieC])) mineC ⟨left,zombieC⟩
  | @block me child next i j running clean slot mine live chosen ready =>
    refine noLost_switch chosen ?_
    intro a b h c slotH isBlocked slotC mineC zombie
    have oldC : s.slots b = some c := by
      by_cases same : b = s.current
      · subst same
        have equal : { me with state := .Blocked } = c := by simpa [blockSlots] using slotC
        obtain ⟨code,dead⟩ := zombie
        rw [← equal] at dead
        cases dead
      · simpa [blockSlots,Function.update_of_ne same] using slotC
    by_cases same : a = s.current
    · subst same
      have equal : { me with state := .Blocked } = h := by simpa [blockSlots] using slotH
      exact clean b c oldC (by rw [mineC,← equal]) zombie
    · have oldH : s.slots a = some h := by simpa [blockSlots,Function.update_of_ne same] using slotH
      exact kept a b h c oldH isBlocked oldC mineC zombie
  | @die me next j code running chosen ready =>
    have visible := seen code rfl
    refine noLost_switch chosen ?_
    intro a b h c slotH isBlocked slotC mineC zombie
    rcases dieSlots_some sound running slotH with ⟨_,rfl⟩ | ⟨otherH,oldH,inH,rfl⟩
    · cases isBlocked
    rw [afterDeath_state] at isBlocked
    split at isBlocked
    · cases isBlocked
    rename_i asleep
    rw [afterDeath_pid] at mineC
    rcases dieSlots_some sound running slotC with ⟨_,rfl⟩ | ⟨otherC,oldC,inC,rfl⟩
    · -- The dead process wakes its parent.
      exact asleep ⟨mineC.symm,isBlocked⟩
    rw [afterDeath_parent] at mineC
    have zombieC := afterDeath_zombie.mp zombie
    by_cases orphan : oldC.parent_pid = me.pid
    · have notGone : oldC.state ≠ .Gone := by
        obtain ⟨left,state⟩ := zombieC
        simp [state]
      have one : (adoptHeader me.pid oldC).parent_pid = 1 := by
        unfold adoptHeader
        rw [if_pos ⟨orphan,notGone⟩]
      apply visible
      refine ⟨me,b,oldC,a,oldH,running,inC,orphan,zombieC,?_,inH,by omega,isBlocked⟩
      intro father
      exact asleep ⟨by omega,isBlocked⟩
    · have same : (adoptHeader me.pid oldC).parent_pid = oldC.parent_pid := by
        unfold adoptHeader
        rw [if_neg (fun both => orphan both.1)]
      exact kept a b oldH oldC inH isBlocked inC (by omega) zombieC

/-- A death that hides a zombie from init does lose a wakeup. -/
theorem hidden_lost {s s' : System} {code : Nat} (sound : Sound s) (hidden : Hidden s) (step : Step s (.die code) s') :
    ¬ NoLost s' := by
  obtain ⟨me,i,c,j,init,here,slotC,mine,dead,father,slotI,pid,asleep⟩ := hidden
  cases step with
  | @die me' next l _ running chosen ready =>
    rw [here,Option.some.injEq] at running
    subst running
    obtain ⟨left,stateC⟩ := dead
    obtain ⟨runs,now,awake⟩ := sound.running
    rw [here,Option.some.injEq] at now
    subst now
    have away : ∀ {k : Fin MAX_PROCESSES} {h : Header}, s.slots k = some h → h.state ≠ .Running → k ≠ s.current := by
      rintro k h slot idle rfl
      rw [here,Option.some.injEq] at slot
      rw [← slot] at idle
      exact idle awake
    have kept : ∀ {k : Fin MAX_PROCESSES} {h : Header}, s.slots k = some h → h.state ≠ .Running →
        (afterDeath me h).state ≠ .Ready → (switch s (dieSlots s me code) l next).slots k = some (afterDeath me h) := by
      intro k h slot idle unready
      have after : dieSlots s me code k = some (afterDeath me h) := by
        rw [dieSlots_eq sound here,if_neg (away slot idle),slot]
        rfl
      have other : k ≠ l := by
        rintro rfl
        rw [chosen,Option.some.injEq] at after
        rw [after] at ready
        exact unready ready
      show Function.update _ l _ k = _
      rw [Function.update_of_ne other,after]
    have blocked : (afterDeath me init).state = .Blocked := by
      rw [afterDeath_state,if_neg (fun both => father (by rw [← both.1,pid]))]
      exact asleep
    have zombie : (afterDeath me c).state = .Zombie left := by
      rw [afterDeath_state,if_neg (by rw [stateC]; simp)]
      exact stateC
    have adopted : (afterDeath me c).parent_pid = 1 := by
      rw [afterDeath_parent]
      unfold adoptHeader
      rw [if_pos ⟨mine,by rw [stateC]; simp⟩]
    intro whole
    refine whole j i _ _ (kept slotI (by rw [asleep]; simp) (by rw [blocked]; simp)) blocked
      (kept slotC (by rw [stateC]; simp) (by rw [zombie]; simp)) ?_ ⟨left,zombie⟩
    rw [adopted,afterDeath_pid,pid]

end Unit00.Lifecycle
