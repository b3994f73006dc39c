import Unit00.Progress

/-!
What the reference system can do to the images of its processes. A property
that stores of bytes and system calls keep holds of the image of every living
process in every state that a machine reaches, since the machine follows the
reference system. A fork that is short of frames leaves pages out of the child;
it is the one event that the reference system does not follow.
-/
namespace Unit00.Images
open Unit00.Frame Unit00.Paging Unit00.Ownership Unit00.Space Unit00.Pages Unit00.Task Unit00.Scheduler Unit00.Syscall
open Unit00.Machine Unit00.Lifecycle Unit00.Steps Unit00.Invariant Unit00.Services Unit00.Traps Unit00.Boot Unit00.Runs
open Unit00.Forking Unit00.View Unit00.Progress
open Unit00.Eager (Page Pages Image World)

/-! ### Rights -/

/-- What a process may do with a page. -/
structure Rights where
  readable : Bool
  writable : Bool
  executable : Bool
  deriving DecidableEq

/-- What a process may do with its pages, whatever their bytes are. -/
def rights (s : Pages) (n : Nat) : Option Rights := (s n).map fun p => ⟨p.readable,p.writable,p.executable⟩

theorem rights_isSome (s : Pages) (n : Nat) : (rights s n).isSome = (s n).isSome := Option.isSome_map

@[simp] theorem rights_writeByte (va : Nat) (value : BitVec 8) (s : Pages) : rights (Eager.writeByte va value s) = rights s := by
  funext n
  unfold rights Eager.writeByte
  by_cases here : n = Unit00.Trees.pageOf va
  · rw [if_pos here,Option.map_map]
    rfl
  · rw [if_neg here]

@[simp] theorem rights_write (va : Nat) (data : Nat → BitVec 8) (len : Nat) (s : Pages) :
    rights (Eager.write va data len s) = rights s := by
  induction len with
  | zero => rfl
  | succ len ih => rw [Eager.write,rights_writeByte,ih]

@[simp] theorem rights_writeList (va : Nat) (bytes : List (BitVec 8)) (s : Pages) :
    rights (Eager.writeList va bytes s) = rights s := rights_write ..

@[simp] theorem rights_deliver (ptr code : Nat) (s : Pages) : rights (Eager.deliver ptr code s) = rights s := by
  unfold Eager.deliver
  split <;> simp

@[simp] theorem rights_read (fd buf len : Nat) (input : Nat → BitVec 8) (s : Pages) :
    rights (Eager.read fd buf len input s).1 = rights s := by
  unfold Eager.read
  split <;> simp

@[simp] theorem rights_getcwd (buf size : Nat) (s : Pages) : rights (Eager.getcwd buf size s) = rights s := by
  unfold Eager.getcwd
  split <;> simp

@[simp] theorem rights_uname (buf : Nat) (s : Pages) : rights (Eager.uname buf s) = rights s := by
  unfold Eager.uname
  split
  · generalize Eager.utsFields.zipIdx = fields
    suffices all : ∀ s0, rights s0 = rights s →
        rights (fields.foldl (fun s field => Eager.writeList (buf+field.2*UTS_FIELD_LEN) field.1 s) s0) = rights s from
      all _ (by simp)
    induction fields with
    | nil => exact fun s0 same => same
    | cons field rest ih => exact fun s0 same => ih _ (by simp [same])
  · rfl

theorem rights_unmap (lo hi : Nat) (s : Pages) (n : Nat) :
    rights (Eager.unmap lo hi s) n = if lo ≤ n ∧ n < hi then none else rights s n := by
  unfold rights Eager.unmap
  split <;> rfl

theorem rights_fillPages (lo hi : Nat) (p : Page) (s : Pages) (n : Nat) :
    rights (Eager.fillPages lo hi p s) n =
      if lo ≤ n ∧ n < hi then some ⟨p.readable,p.writable,p.executable⟩ else rights s n := by
  unfold rights Eager.fillPages
  split <;> rfl

/-! ### Steps of the reference system -/

/-- The calls that change more of an image than the bytes of its pages. -/
def Remaps (number : Nat) : Prop := number = SYS_MUNMAP ∨ number = SYS_BRK ∨ number = SYS_EXEC ∨ number = SYS_MMAP

/-- A property of images that stores of bytes and the calls that `may` admits keep. -/
structure Closed (may : Nat → (Fin 6 → Nat) → Prop) (P : Image → Prop) : Prop where
  bytes : ∀ a s, P a → rights s = rights a.pages → P { a with pages := s }
  call : ∀ granted number args a input, may number args → Remaps number → P a → P (Eager.call granted number args a input).1

theorem Closed.calls {may : Nat → (Fin 6 → Nat) → Prop} {P : Image → Prop} (closed : Closed may P) {granted : Bool}
    {number : Nat} {args : Fin 6 → Nat} {a : Image} {input : Nat → BitVec 8} (admitted : may number args) (here : P a) :
    P (Eager.call granted number args a input).1 := by
  by_cases remaps : Remaps number
  · exact closed.call granted number args a input admitted remaps here
  · unfold Eager.call
    by_cases getcwd : number = SYS_GETCWD
    · rw [if_pos getcwd]
      exact closed.bytes a _ here (rights_getcwd ..)
    rw [if_neg getcwd]
    by_cases read : number = SYS_READ
    · rw [if_pos read]
      exact closed.bytes a _ here (rights_read ..)
    rw [if_neg read]
    by_cases uname : number = SYS_UNAME
    · rw [if_pos uname]
      exact closed.bytes a _ here (rights_uname ..)
    rw [if_neg uname,if_neg fun same => remaps (.inl same),if_neg fun same => remaps (.inr (.inl same)),
      if_neg fun same => remaps (.inr (.inr (.inl same))),if_neg fun same => remaps (.inr (.inr (.inr same)))]
    exact here

/-- The images of the living processes have a property. -/
def Everywhere (P : Image → Prop) (w : World) : Prop := ∀ i h, w.procs.slots i = some h → Live h → P (w.image i)

/-- Only a fork makes a process: what lives after any other step lived before. -/
theorem live_back {s s' : System} {label : Label} (sound : Lifecycle.Sound s) (step : Lifecycle.Step s label s')
    (not_fork : ∀ child, label ≠ .fork child) {i : Fin MAX_PROCESSES} {h' : Header} (slot' : s'.slots i = some h')
    (live : Live h') : ∃ h, s.slots i = some h ∧ Live h := by
  rcases step_back sound step slot' with ⟨h,slot,_,_,_,gone⟩ | ⟨_,_,fork,_⟩
  · refine ⟨h,slot,?_⟩
    rcases state_cases h with lives | ⟨code,dead⟩ | away
    · exact lives
    · obtain ⟨h2,slot2,still⟩ := step_zombie sound step slot dead
      rw [slot',Option.some.injEq] at slot2
      subst slot2
      rcases still with dead' | away
      · exact absurd ⟨code,dead'⟩ (live_not_zombie live)
      · exact absurd away (live_not_gone live)
    · exact absurd (gone away) (live_not_gone live)
  · exact absurd fork (not_fork _)

section
variable {may : Nat → (Fin 6 → Nat) → Prop} {P : Image → Prop} {w w' : World}

theorem Everywhere.put (all : Everywhere P w) {a : Image} (here : P a) (input : Nat → BitVec 8) :
    Everywhere P { w.put a with input := input } := by
  intro i h slot live
  unfold World.put
  dsimp only
  by_cases mine : i = w.procs.current
  · subst mine
    rw [Function.update_self]
    exact here
  · rw [Function.update_of_ne mine]
    exact all i h slot live

/-- A change of the processes other than a fork. -/
theorem Everywhere.move (all : Everywhere P w) (sound : Lifecycle.Sound w.procs) {label : Label} {after : System}
    (step : Lifecycle.Step w.procs label after) (not_fork : ∀ child, label ≠ .fork child) :
    Everywhere P { w with procs := after } := by
  intro i h slot live
  obtain ⟨h0,slot0,live0⟩ := live_back sound step not_fork slot live
  exact all i h0 slot0 live0

/-- One step of the reference system keeps a closed property of all images. -/
theorem Everywhere.step (closed : Closed may P) (sound : Lifecycle.Sound w.procs) {act : Eager.Action} (step : Eager.Step w act w')
    (admitted : ∀ number args, act = .call number args → may number args) (all : Everywhere P w) : Everywhere P w' := by
  obtain ⟨me,running,awake⟩ := sound.running
  have mine : P (w.image w.procs.current) := all _ me running (.inr (.inl awake))
  have moved : ∀ a : Image, { w.put a with input := w.input } = w.put a := fun _ => rfl
  cases step with
  | store page writable =>
    rw [← moved]
    exact all.put (closed.bytes _ _ mine (rights_writeByte ..)) _
  | call granted returns not_fork not_wait => exact all.put (closed.calls (admitted _ _ rfl) mine) _
  | @fork args me' idx slot free =>
    intro i h found live
    dsimp only at found ⊢
    by_cases child : i = idx
    · subst child
      rw [Function.update_self]
      exact mine
    · rw [Function.update_of_ne child] at found ⊢
      exact all i h found live
  | full none => exact all
  | exit exits dies => exact all.move sound dies (by simp)
  | @reap args child code after reaps =>
    have delivered : P { w.image w.procs.current with
        pages := Eager.deliver (args 0) code (w.image w.procs.current).pages } :=
      closed.bytes _ _ mine (rights_deliver ..)
    have put := all.put delivered w.input
    exact put.move (w := { w.put _ with input := w.input }) sound reaps (by simp)
  | block blocks => exact all.move sound blocks (by simp)
  | childless running none => exact all
  | killed dies => exact all.move sound dies (by simp)

end

/-! ### Steps of the machine -/

/-- The images of the living processes of a machine have a property. -/
def Imaged (P : Image → Prop) (k : Kernel) : Prop :=
  ∀ i p, k.process_list i = some p → Live (header p) → P (imageAt k.mm p)

/-- A child of a fork that is short of frames lacks pages of its parent. -/
def Thinned (P : Image → Prop) : Prop := ∀ a s, P a → (∀ n, s n = a.pages n ∨ s n = none) → P { a with pages := s }

/-- The event is no fork that finds a slot but not the frames for all tables of the child. -/
def ForksWhole (k : Kernel) (e : Event) : Prop :=
  Calls e SYS_FORK → ∀ me, runner k = some me → emptySlot (procs k).slots ≠ none → ForkFits k.mm me.page_table

section
variable {exact : Bool} {o : Origin} {k k' : Kernel} {g : Ledger} {me : Process} {e : Event} {P : Image → Prop}
  {may : Nat → (Fin 6 → Nat) → Prop}

theorem imaged_worldOf (all : Imaged P k) : Everywhere P (worldOf k) := by
  intro i h slot live
  obtain ⟨p,found,rfl⟩ := slots_inv slot
  unfold worldOf
  simp only [found]
  exact all i p found live

theorem imaged_agrees {w : World} (agrees : Agrees w k g) (inv : Inv exact o k g) (all : Everywhere P w) : Imaged P k := by
  intro i p slot live
  rw [imageAt_eq inv slot (live_there live),← agrees.images i p slot live]
  refine all i (header p) ?_ live
  rw [agrees.procs]
  exact slots_some slot

variable (user : InUser exact o k g) (running : k.process_list k.current = some me) (awake : me.state = .Running)

include user running awake

/-- A process that lives while a trap is handled has the image that it had before. -/
theorem imaged_entered (all : Imaged P k) (ctx : Context) (scause stval : BitVec 64) {i : Fin MAX_PROCESSES} {p : Process}
    (slot : (entered ctx scause stval k me).process_list i = some p) (live : Live (header p)) :
    P (imageOf (entered ctx scause stval k me).mm g p) := by
  obtain ⟨inv,_,here,_,spaces⟩ := entered_inv user running awake ctx scause stval
  have there := live_there live
  by_cases mine : i = k.current
  · subst mine
    rw [here,Option.some.injEq] at slot
    subst slot
    have before := all _ me running live
    rw [imageAt_eq user.inv running (live_there live)] at before
    unfold imageOf at before ⊢
    rw [spaces _ (inv.link.root here there)]
    exact before
  · have before : k.process_list i = some p := by
      rw [← slot]
      exact (Function.update_of_ne mine _ _).symm
    have image := all i p before live
    rw [imageAt_eq user.inv before there] at image
    unfold imageOf at image ⊢
    rw [spaces _ (user.inv.link.root before there)]
    exact image

/-- A fork, short of frames or not. -/
theorem imaged_fork (calls : Calls e SYS_FORK) (short : ForksWhole k e ∨ Thinned P) (run : step e k = .user k') (all : Imaged P k) :
    Imaged P k' := by
  have waits : WaitsWell k e := fun other => by
    have both := calls.2.symm.trans other.2
    cases both
  have user' := user.leaky
  obtain ⟨r,kh,g',next,handled,slot_next,rfl,_,after,_⟩ := call_handled user' running awake calls.1 waits (by simp) run
  obtain ⟨inv1,home1,running1,_,_⟩ := entered_inv user' running awake e.ctx 8 0
  obtain ⟨invh,homeh⟩ := handled.keeps inv1 home1 running1 awake
  obtain ⟨next',slot_next',awake_next,_⟩ := handled.next running1 awake
  rw [slot_next,Option.some.injEq] at slot_next'
  subst slot_next'
  obtain ⟨_,spaces⟩ := leaving_user invh homeh slot_next awake_next r
  intro i p slot live
  have there := live_there live
  rw [imageAt_eq after.inv slot there]
  rw [(leaving_rest _ _ _).1] at slot
  unfold imageOf
  rw [spaces _ (invh.link.root slot there)]
  have entering {j : Fin MAX_PROCESSES} {q : Process} := imaged_entered user' running awake all e.ctx 8 0 (i := j) (p := q)
  unfold callOf at handled
  rw [calls.2] at handled
  cases handled with
  | call _ not_fork _ _ => exact absurd rfl not_fork
  | full none => exact entering slot live
  | exit exits => exact absurd exits (by decide)
  | @fork _ idx c s mm _ free forked =>
    dsimp only at slot ⊢
    by_cases child : i = idx
    · subst child
      rw [Function.update_self,Option.some.injEq] at slot
      subst slot
      have mine := entering running1 (.inr (.inl awake))
      rcases short with fits | thinned
      · have isRoot := user'.inv.link.root running (by rw [awake]; simp)
        have enough : Fits g me.page_table.root := by
          refine (forkFits_iff user'.inv.good me.page_table isRoot).mp (fits calls me running ?_)
          rw [find_empty_slot_eq,slots_entered running] at free
          rw [show emptySlot (procs k).slots = some i from free]
          simp
        have same : space mm g' c = space (entered e.ctx 8 0 k me).mm g me.page_table.root :=
          funext fun n => (forked.pages n).resolve_right fun missing => missing.2 enough
        rw [show (forkChild (stopped e.ctx 8 0 me) (entered e.ctx 8 0 k me).next_pid c s).page_table.root = c from rfl,same]
        exact mine
      · exact thinned _ _ mine fun n => (forked.pages n).imp id And.left
    · rw [Function.update_of_ne child] at slot
      have before := entering slot live
      unfold imageOf at before
      rw [forked.spaces _ (inv1.link.root slot there)]
      exact before

/-- One step of the machine keeps a closed property of all images. -/
theorem imaged_step (sound : Lifecycle.Sound (procs k)) (closed : Closed may P) (waits : WaitsWell k e)
    (admitted : ∀ number, Calls e number → may number (argument e)) (short : ForksWhole k e ∨ Thinned P)
    (run : step e k = .user k') (all : Imaged P k) : Imaged P k' := by
  by_cases fits : ForksWell k e
  · have user' := user.leaky
    obtain ⟨g',after,follows⟩ := step_user user' running awake waits (by simp) run
    obtain ⟨w',next,agrees⟩ := follows (worldOf k) (worldOf_agrees user'.inv) fits
    refine imaged_agrees agrees after.inv ?_
    have before : Everywhere P (worldOf k) := imaged_worldOf all
    cases seen : visible k e with
    | none =>
      rw [seen] at next
      rw [show w' = worldOf k from next]
      exact before
    | some act =>
      rw [seen] at next
      refine Everywhere.step closed (w := worldOf k) sound next ?_ before
      rintro number args rfl
      obtain ⟨calls,rfl⟩ := visible_call seen
      exact admitted number calls
  · have calls : Calls e SYS_FORK := by
      by_contra other
      exact fits fun calls => absurd calls other
    exact imaged_fork user running awake calls short run all

end

/-- A property of the image of init that is closed holds of every living process in every state reached. -/
theorem reachable_images {cfg : Config} {allowed : Kernel → Event → Prop} {may : Nat → (Fin 6 → Nat) → Prop} {P : Image → Prop}
    (lawful : ∀ k e, allowed k e → WaitsWell k e ∧ (ForksWhole k e ∨ Thinned P) ∧ ∀ number, Calls e number → may number (argument e))
    (closed : Closed may P) (start : ∀ k, boot cfg = .user k → Imaged P k) {k : Kernel} (reached : Reachable cfg allowed k) :
    Imaged P k := by
  induction reached with
  | boot run => exact start _ run
  | step before admitted run ih =>
    obtain ⟨waits,short,calls⟩ := lawful _ _ admitted
    obtain ⟨me,running,awake⟩ := reachable_awake before
    obtain ⟨_,_,_,_,_,_,_,user⟩ := reachable_user false (fun k e may => ⟨(lawful k e may).1,by simp⟩) before
    exact imaged_step user running awake (reachable_sound before) closed waits calls short run ih

end Unit00.Images
