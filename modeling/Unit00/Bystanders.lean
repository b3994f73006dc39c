import Unit00.Fairness
import Unit00.Boundary

/-!
Processes that do not run. Whatever the running processes do to their own memory, the
address space of a process that waits for its turn stays as it is: its pages, their
permissions and bytes, its heap and its mappings.
-/
namespace Unit00.Bystanders
open Unit00.Execution Unit00.Ownership Unit00.Mirror Unit00.Services Unit00.Task Unit00.Scheduler Unit00.Syscall Unit00.Machine
open Unit00.Lifecycle Unit00.Steps Unit00.Invariant Unit00.Traps Unit00.Boot Unit00.Runs Unit00.Progress Unit00.Stages Unit00.Deaths
open Unit00.Boundary Unit00.Fairness
open Unit00.Eager (World)

/-! ### One step -/

/-- An action changes the image of the running process and of a new one only. -/
theorem image_kept {w w' : World} {act : Eager.Action} (step : Eager.Step w act w') {i : Fin MAX_PROCESSES} {h : Header}
    (slot : w.procs.slots i = some h) (there : h.state ≠ .Gone) (elsewhere : i ≠ w.procs.current) : w'.image i = w.image i := by
  cases step with
  | store page writable => exact Function.update_of_ne elsewhere _ _
  | call granted returns not_fork not_wait => exact Function.update_of_ne elsewhere _ _
  | @fork args me j running free =>
    have other : i ≠ j := by
      rintro rfl
      exact there (free h slot)
    exact Function.update_of_ne other _ _
  | full none => rfl
  | exit exits dies => rfl
  | reap reaps => exact Function.update_of_ne elsewhere _ _
  | block blocks => rfl
  | childless running none => rfl
  | killed dies => rfl

/-- A switch leaves a live process alive, in its slot. -/
theorem switch_live {s : System} {t : Slots} {i j : Fin MAX_PROCESSES} {next h : Header} (slot : t i = some h) (live : Live h)
    (chosen : t j = some next) : ∃ h', (switch s t j next).slots i = some h' ∧ h'.pid = h.pid ∧ Live h' := by
  by_cases same : i = j
  · subst same
    obtain rfl : h = next := Option.some.inj (slot.symm.trans chosen)
    exact ⟨_,Function.update_self ..,rfl,.inr (.inl rfl)⟩
  · exact ⟨h,(Function.update_of_ne same _ _).trans slot,rfl,live⟩

/-- A process dies only when it runs. -/
theorem step_live {s s' : System} {label : Label} (sound : Lifecycle.Sound s) (step : Lifecycle.Step s label s')
    {i : Fin MAX_PROCESSES} {h : Header} (slot : s.slots i = some h) (live : Live h) (elsewhere : i ≠ s.current) :
    ∃ h', s'.slots i = some h' ∧ h'.pid = h.pid ∧ Live h' := by
  cases step with
  | quiet => exact ⟨h,slot,rfl,live⟩
  | @fork me j running free =>
    have other : i ≠ j := by
      rintro rfl
      exact live_not_gone live (free h slot)
    exact ⟨h,(Function.update_of_ne other _ _).trans slot,rfl,live⟩
  | @reap me child j code running slotC mine dead =>
    have other : i ≠ j := by
      rintro rfl
      obtain rfl : h = child := Option.some.inj (slot.symm.trans slotC)
      exact live_not_zombie live ⟨code,dead⟩
    exact ⟨h,(Function.update_of_ne other _ _).trans slot,rfl,live⟩
  | @block me child next _ j running clean slotC mine liveC chosen ready =>
    exact switch_live ((Function.update_of_ne elsewhere _ _).trans slot) live chosen
  | @die me next j code running chosen ready =>
    have kept : dieSlots s me code i = some (afterDeath me h) := by
      rw [dieSlots_eq sound running,if_neg elsewhere,slot]
      rfl
    obtain ⟨h',slot',pid,live'⟩ := switch_live (s := s) kept (afterDeath_live.mpr live) chosen
    exact ⟨h',slot',pid.trans (afterDeath_pid me h),live'⟩

section
variable {o : Origin} {k k' : Kernel} {g : Ledger} {me p q : Process} {e : Event} {i : Fin MAX_PROCESSES}
  (user : InUser false o k g) (running : k.process_list k.current = some me) (awake : me.state = .Running)
  (slot : k.process_list i = some p) (live : Live (header p)) (elsewhere : i ≠ k.current)
  (slotQ : k'.process_list i = some q) (liveQ : Live (header q))

include user running awake slot live elsewhere slotQ liveQ

/-- A fork, short of frames or not, leaves the others alone. -/
theorem fork_image (calls : Calls e SYS_FORK) (run : step e k = .user k') : imageAt k'.mm q = imageAt k.mm p := by
  have waits : WaitsWell k e := fun other => by
    have both := calls.2.symm.trans other.2
    cases both
  obtain ⟨r,kh,g',next,handled,slot_next,rfl,_,after,_⟩ := call_handled user running awake calls.1 waits (by simp) run
  obtain ⟨inv1,home1,running1,_,entering⟩ := entered_inv user running awake e.ctx 8 0
  obtain ⟨invh,homeh⟩ := handled.keeps inv1 home1 running1 awake
  obtain ⟨next',slot_next',awake_next,_⟩ := handled.next running1 awake
  rw [slot_next,Option.some.injEq] at slot_next'
  subst slot_next'
  obtain ⟨_,spaces⟩ := leaving_user invh homeh slot_next awake_next r
  have there := live_there live
  have thereQ := live_there liveQ
  rw [imageAt_eq after.inv slotQ thereQ,imageAt_eq user.inv slot there]
  rw [(leaving_rest _ _ _).1] at slotQ
  have before : (entered e.ctx 8 0 k me).process_list i = some p := (Function.update_of_ne elsewhere _ _).trans slot
  have same := entering _ (user.inv.link.root slot there)
  unfold imageOf
  rw [spaces _ (invh.link.root slotQ thereQ)]
  unfold callOf at handled
  rw [calls.2] at handled
  cases handled with
  | call _ not_fork _ _ => exact absurd rfl not_fork
  | exit exits => exact absurd exits (by decide)
  | full none =>
    obtain rfl : p = q := Option.some.inj (before.symm.trans slotQ)
    rw [same]
  | @fork _ idx c s mm _ free forked =>
    have other : i ≠ idx := by
      rintro rfl
      exact there (find_empty_slot_some free before)
    dsimp only at slotQ ⊢
    rw [Function.update_of_ne other] at slotQ
    obtain rfl : p = q := Option.some.inj (before.symm.trans slotQ)
    rw [forked.spaces _ (inv1.link.root before there),same]

/-- What a step leaves of the image of a live process that does not run. -/
theorem step_image (waits : WaitsWell k e) (run : step e k = .user k') : imageAt k'.mm q = imageAt k.mm p := by
  by_cases forks : ForksWell k e
  · -- the reference system leaves the image alone, and both states agree with it
    obtain ⟨g',after,follows⟩ := step_user user running awake waits (by simp) run
    obtain ⟨w',next,agrees⟩ := follows (worldOf k) (worldOf_agrees user.inv) forks
    have before : (worldOf k).image i = imageAt k.mm p := by
      unfold worldOf
      simp only [slot]
    have same : w'.image i = (worldOf k).image i := by
      cases seen : visible k e with
      | none =>
        rw [seen] at next
        have idle : w' = worldOf k := next
        rw [idle]
      | some act =>
        rw [seen] at next
        exact image_kept next (slots_some slot) (live_there live) elsewhere
    rw [imageAt_eq after.inv slotQ (live_there liveQ),← agrees.images i q slotQ liveQ,same,before]
  · have calls : Calls e SYS_FORK := by
      by_contra other
      exact forks fun calls => absurd calls other
    exact fork_image user running awake slot live elsewhere slotQ liveQ calls run

end

/-! ### Stretches of runs -/

/-- Isolation over time: as long as a live process does not run, it lives on in its slot and its address space is the
    same page by page and byte by byte, whatever runs in between. -/
theorem bystander_kept {cfg : Config} {k k' : Kernel} {seen : List Kernel} {n : Nat} {i : Fin MAX_PROCESSES} {p : Process}
    (reached : Reachable cfg WaitsWell k) (slot : k.process_list i = some p) (waiting : p.state = .Ready ∨ p.state = .Blocked)
    (stretch : Stretch WaitsWell k seen n k') (idle : ∀ a ∈ seen, a.current ≠ i) :
    ∃ q, k'.process_list i = some q ∧ q.pid = p.pid ∧ (q.state = .Ready ∨ q.state = .Blocked) ∧
      imageAt k'.mm q = imageAt k.mm p := by
  have live : Live (header p) := waiting.elim .inl fun blocked => .inr (.inr blocked)
  have kept : ∃ q, k'.process_list i = some q ∧ q.pid = p.pid ∧ Live (header q) ∧ imageAt k'.mm q = imageAt k.mm p := by
    induction stretch with
    | start => exact ⟨p,slot,rfl,live,rfl⟩
    | @step seen n a b e before may run ih =>
      obtain ⟨q,slotQ,pid,liveQ,same⟩ := ih fun x member => idle x (List.mem_cons_of_mem _ member)
      have elsewhere : a.current ≠ i := by
        refine idle a (List.mem_cons_of_mem _ ?_)
        cases before with
        | start => exact List.mem_singleton_self _
        | step => exact List.mem_cons_self
      have before := before.reachable reached
      obtain ⟨me,running,awake⟩ := reachable_awake before
      obtain ⟨_,_,_,_,g,_,_,user⟩ := reachable_user false (fun _ _ waits => ⟨waits,by simp⟩) before
      have ends := step_ends running e
      rw [run] at ends
      obtain ⟨label,goes⟩ := ends
      obtain ⟨h,slotH,pidH,liveH⟩ := step_live (reachable_sound before) goes (slots_some slotQ) liveQ (Ne.symm elsewhere)
      obtain ⟨x,slotX,rfl⟩ := slots_inv slotH
      have kept := step_image user running awake slotQ liveQ (Ne.symm elsewhere) slotX liveH may run
      exact ⟨x,slotX,pidH.trans pid,liveH,kept.trans same⟩
  obtain ⟨q,slotQ,pid,liveQ,same⟩ := kept
  refine ⟨q,slotQ,pid,?_,same⟩
  have now : k'.current ≠ i := by
    refine idle k' ?_
    cases stretch with
    | start => exact List.mem_singleton_self _
    | step => exact List.mem_cons_self
  rcases liveQ with ready | runs | blocked
  · exact .inl ready
  · exact absurd ((reachable_sound (stretch.reachable reached)).only (slots_some slotQ) runs).symm now
  · exact .inr blocked

/-- The first child of init keeps its image while init forks again. -/
theorem bystander_kept_of_child : ∃ k k' seen i p, Reachable (sample true) WaitsWell k ∧ k.process_list i = some p ∧
    p.state = .Ready ∧ Stretch WaitsWell k seen 0 k' ∧ seen ≠ [k] ∧
    ∃ q, k'.process_list i = some q ∧ q.pid = p.pid ∧ (q.state = .Ready ∨ q.state = .Blocked) ∧
      imageAt k'.mm q = imageAt k.mm p := by
  obtain ⟨_,_,k1,_,_,_,_,_,handover⟩ := sample_handover
  have at1 := handover.at1
  obtain ⟨k2,g2,_,_,at2,run2,_⟩ := stage_fork (n := 3*1035) at1 rfl rfl 2 (by decide +kernel)
    ⟨tableOf [⟨1,0,.Running⟩,⟨2,1,.Ready⟩,⟨3,1,.Ready⟩],0,4⟩ (system_eq (by decide +kernel) rfl rfl)
  have forks : WaitsWell k1 (callEvent 220 []) := fun calls => absurd calls.2 (by decide)
  have reached := (plain_waits at1.run).reachable
  have slot : (procs k1).slots 1 = some ⟨2,1,.Ready⟩ := by
    rw [at1.procs]
    rfl
  obtain ⟨p,here,same⟩ := slots_inv slot
  have ready : p.state = .Ready := congrArg Header.state same
  have current1 : k1.current = 0 := congrArg System.current at1.procs
  have current2 : k2.current = 0 := congrArg System.current at2.procs
  have stretch : Stretch WaitsWell k1 [k2,k1] (0+switches k1 k2) k2 := Stretch.start.step forks run2
  have still : 0+switches k1 k2 = 0 := by
    unfold switches
    rw [current1,current2]
    rfl
  rw [still] at stretch
  have idle : ∀ a ∈ [k2,k1], a.current ≠ 1 := by
    intro a member
    rcases List.mem_cons.mp member with rfl | member
    · rw [current2]
      decide
    · rw [List.mem_singleton.mp member,current1]
      decide
  exact ⟨k1,k2,_,1,p,reached,here,ready,stretch,by simp,bystander_kept reached here (.inl ready) stretch idle⟩

end Unit00.Bystanders
