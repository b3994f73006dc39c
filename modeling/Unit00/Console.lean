import Unit00.Boundary

/-!
The console as a process sees it. `sys_write` prints exactly the bytes that the process
sees in its buffer, in order, and changes nothing else; a refused call prints nothing.
-/
namespace Unit00.Console
open Unit00.Memory Unit00.Execution Unit00.Frame Unit00.Paging Unit00.Paging.PTEntry Unit00.Trees Unit00.Ownership
open Unit00.Mirror Unit00.Space Unit00.Pages Unit00.Access Unit00.Mmu Unit00.Invariant
open Unit00.Task Unit00.Scheduler Unit00.Syscall Unit00.Machine Unit00.Steps Unit00.Services Unit00.Traps Unit00.View
open Unit00.Boot Unit00.Runs Unit00.Stages Unit00.Boundary
open Unit00.Eager (Writable)

/-! ### What a refused range returns -/

theorem ensure_user_page_error {pt : PageTable} {page e : Nat} {write : Bool} {m m' : Mm}
    (run : (ensure_user_page pt page write).run m = .ok (.error e) m') : e = linux_error EFAULT := by
  unfold ensure_user_page at run
  obtain ⟨found,m1,_,rest⟩ := bind_ok run
  cases found with
  | none =>
    cases rest
    rfl
  | some entry =>
    dsimp only at rest
    obtain ⟨x,m2,_,rest⟩ := bind_ok rest
    split at rest
    · cases rest
      rfl
    cases write with
    | false =>
      rw [if_neg (by simp)] at rest
      obtain ⟨y,m3,_,rest⟩ := bind_ok rest
      split at rest
      · cases rest
        rfl
      · cases rest
    | true =>
      rw [if_pos rfl] at rest
      have checked {m2 : Mm} (last : (do if !is_w (← Frame.read entry) then return .error (linux_error EFAULT) else return .ok () :
          M (Except Nat Unit)).run m2 = .ok (.error e) m') : e = linux_error EFAULT := by
        obtain ⟨z,m4,_,last⟩ := bind_ok last
        split at last
        · cases last
          rfl
        · cases last
      obtain ⟨y,m3,_,rest⟩ := bind_ok rest
      split at rest
      · obtain ⟨_,m4,_,rest⟩ := bind_ok rest
        exact checked rest
      · exact checked rest

theorem ensure_user_pages_error {pt : PageTable} {last e : Nat} {write : Bool} (n : Nat) :
    ∀ {page : Nat} {m m' : Mm}, mask_page last-page ≤ n →
      (ensure_user_pages pt last page write).run m = .ok (.error e) m' → e = linux_error EFAULT := by
  induction n with
  | zero =>
    intro page m m' near run
    rw [ensure_user_pages] at run
    obtain ⟨res,m1,one,rest⟩ := bind_ok run
    cases res with
    | error x =>
      cases rest
      exact ensure_user_page_error one
    | ok _ =>
      dsimp only at rest
      rw [dif_pos (by omega)] at rest
      cases rest
  | succ n ih =>
    intro page m m' near run
    rw [ensure_user_pages] at run
    obtain ⟨res,m1,one,rest⟩ := bind_ok run
    cases res with
    | error x =>
      cases rest
      exact ensure_user_page_error one
    | ok _ =>
      dsimp only at rest
      split at rest
      · cases rest
      · exact ih (by omega) rest

theorem ensure_user_range_error {pt : PageTable} {ptr len e : Nat} {write : Bool} {m m' : Mm}
    (run : (ensure_user_range pt ptr len write).run m = .ok (.error e) m') : e = linux_error EFAULT := by
  unfold ensure_user_range at run
  split at run
  · cases run
  split at run
  · cases run
    rfl
  cases added : checked_add ptr (len-1) with
  | none =>
    rw [added] at run
    cases run
    rfl
  | some last =>
    rw [added] at run
    exact ensure_user_pages_error _ (le_refl _) run

theorem ensure_range_error {ptr len e : Nat} {write : Bool} {k k' : Kernel} {me : Process}
    (running : k.process_list k.current = some me) (run : (ensure_range ptr len write).run k = .ok (.error e) k') :
    e = linux_error EFAULT := by
  unfold ensure_range at run
  rw [run_seq (run_current running),run_onMm] at run
  cases checked : (ensure_user_range me.page_table ptr len write).run k.mm with
  | ok res m =>
    rw [checked] at run
    cases run
    exact ensure_user_range_error checked
  | error x m =>
    rw [checked] at run
    cases run

/-! ### Printing -/

/-- The bytes of a process from `buf` on. -/
def Shows (m : Mm) (pt : PageTable) (buf : Nat) (bytes : List (BitVec 8)) : Prop :=
  ∀ i, i < bytes.length → byteOf m pt (buf+i) = bytes[i]?

/-- The first `i` bytes of a buffer were printed. -/
def Printed (k : Kernel) (pt : PageTable) (buf i : Nat) (s : Kernel) : Prop :=
  ∃ bytes : List (BitVec 8), bytes.length = i ∧ Shows k.mm pt buf bytes ∧ s = { k with output := k.output ++ bytes }

theorem printed_nothing (k : Kernel) (pt : PageTable) (buf : Nat) : Printed k pt buf 0 k :=
  ⟨[],rfl,fun _ low => absurd low (Nat.not_lt_zero _),by rw [List.append_nil]⟩

/-- What a write on the console does, by its result. -/
inductive Prints (k : Kernel) (pt : PageTable) (fd buf len : Nat) : Nat → Kernel → Prop
  | bad_fd (other : fd ≠ 1 ∧ fd ≠ 2) : Prints k pt fd buf len (linux_error EBADF) k
  | fault (mine : fd = 1 ∨ fd = 2) (refused : ¬ Accepts k.mm pt buf len false) : Prints k pt fd buf len (linux_error EFAULT) k
  | printed {bytes : List (BitVec 8)} (mine : fd = 1 ∨ fd = 2) (accepted : Accepts k.mm pt buf len false)
      (length : bytes.length = len) (shows : Shows k.mm pt buf bytes) :
      Prints k pt fd buf len len { k with output := k.output ++ bytes }

section
variable {exact : Bool} {base : Nat} {k k' : Kernel} {g : Ledger} {me : Process} (good : Good exact base k.mm g)
  (running : k.process_list k.current = some me) (isRoot : g.own me.page_table.root = .root)
  (home : root_of k.hart.satp = me.page_table.root)

include good home in
/-- The kernel loads the byte that the process sees. -/
theorem user_load_sees {va : Nat} {e : PTEntry} (leaf : UserLeaf g me.page_table.root (pageOf va) e) {c : BitVec 8}
    {output : List (BitVec 8)} {k1 : Kernel} (run : (user_load va).run { k with output := output } = .ok c k1) :
    byteOf k.mm me.page_table va = some c ∧ k1 = { k with output := output } := by
  unfold user_load at run
  rw [run_seq (EStateM.run_get _)] at run
  dsimp only at run
  rw [translate_leaf good home leaf] at run
  split at run
  · rename_i pa found
    cases run
    split at found
    · cases found
      refine ⟨?_,rfl⟩
      unfold byteOf
      rw [(userLeaf_iff good me.page_table leaf.root).mpr leaf]
      rfl
    · cases found
  · cases run

include good running isRoot home in
theorem run_sys_write {fd buf len r : Nat} (run : (sys_write fd buf len).run k = .ok r k') :
    Prints k me.page_table fd buf len r k' := by
  unfold sys_write at run
  split at run
  · rename_i other
    cases run
    exact .bad_fd other
  rename_i mine
  have fds : fd = 1 ∨ fd = 2 := by
    by_contra neither
    exact mine ⟨fun one => neither (.inl one),fun two => neither (.inr two)⟩
  obtain ⟨res,k1,check,rest⟩ := bind_ok run
  rcases range_cases good me.page_table isRoot buf len false with ⟨short,_⟩ | ⟨res',m',g',ran,_,decides,silent,_⟩
  · exact absurd (fun other => by cases other) short
  obtain ⟨rfl,rfl⟩ := silent rfl
  rw [run_ensure_range running ran] at check
  cases check
  cases res with
  | error e =>
    obtain rfl := ensure_user_range_error ran
    cases rest
    exact .fault fds fun accepted => by cases decides.mpr accepted
  | ok _ =>
    have accepted := decides.mp rfl
    dsimp only at rest
    obtain ⟨_,k2,loop,last⟩ := bind_ok rest
    cases last
    -- after `i` rounds the first `i` bytes of the buffer are printed
    have printed := forM_range'_ok (Printed k me.page_table buf) _ 0 len k k' (printed_nothing k me.page_table buf) ?_ loop
    · obtain ⟨bytes,length,shows,rfl⟩ := printed
      rw [Nat.zero_add] at length
      exact .printed fds accepted length shows
    · rintro i s s' _ inside ⟨bytes,length,shows,rfl⟩ round
      obtain ⟨c,k3,loaded,put⟩ := bind_ok round
      have some_bytes : len ≠ 0 := by omega
      have floor : mask_page buf ≤ buf := by simp only [mask_page]; omega
      have lets := ((accepts_iff good me.page_table isRoot buf len false).mp accepted).resolve_left some_bytes
      obtain ⟨e,leaf,_⟩ := lets.2.2 (buf+i) (by omega) (by omega)
      obtain ⟨sees,rfl⟩ := user_load_sees good home leaf loaded
      cases put
      refine ⟨bytes ++ [c],by simp [length],?_,by simp⟩
      intro j low
      rw [List.length_append,List.length_singleton,length] at low
      by_cases new : j = i
      · subst new
        rw [sees,← length,List.getElem?_append_right (le_refl _)]
        simp
      · rw [List.getElem?_append_left (by omega)]
        exact shows j (by omega)

end

/-- What the handler of a call finds in memory. -/
theorem entered_good {cfg : Config} {k : Kernel} {me : Process} (reached : Reachable cfg WaitsWell k)
    (running : runner k = some me) (ctx : Context) :
    ∃ base g, Good false base (entered ctx 8 0 k me).mm g ∧
      (entered ctx 8 0 k me).process_list (entered ctx 8 0 k me).current = some (stopped ctx 8 0 me) ∧
      g.own me.page_table.root = .root ∧ root_of (entered ctx 8 0 k me).hart.satp = me.page_table.root := by
  obtain ⟨_,_,_,_,g,_,_,user⟩ := reachable_user false (fun _ _ waits => ⟨waits,by simp⟩) reached
  obtain ⟨me',slot,awake⟩ := reachable_awake reached
  obtain rfl : me' = me := Option.some.inj (slot.symm.trans running)
  obtain ⟨inv,home,slot',_,_⟩ := entered_inv user slot awake ctx 8 0
  have there : me'.state ≠ .Gone := by rw [awake]; simp
  have isRoot := inv.link.root slot' there
  have at_root := home _ slot'
  exact ⟨_,_,inv.good,slot',isRoot,at_root⟩

/-- A write that returns has printed the bytes that its caller sees in the buffer, all of them in order, or it was
    refused and printed nothing; nothing else of the machine has changed. -/
theorem sys_write_prints {cfg : Config} {k k' : Kernel} {me : Process} (reached : Reachable cfg WaitsWell k)
    (running : runner k = some me) (ctx : Context) {fd buf len r : Nat}
    (run : (sys_write fd buf len).run (entered ctx 8 0 k me) = .ok r k') :
    Prints (entered ctx 8 0 k me) me.page_table fd buf len r k' := by
  obtain ⟨_,_,good,slot,isRoot,home⟩ := entered_good reached running ctx
  exact run_sys_write good slot isRoot home run

/-- Init prints the first byte of its program. -/
theorem sys_write_prints_after_boot : ∃ k me k', Reachable (sample false) WaitsWell k ∧ runner k = some me ∧
    (sys_write 1 USER_CODE_BASE 1).run (entered ⟨fun _ => 0,0,0⟩ 8 0 k me) = .ok 1 k' ∧
    Prints (entered ⟨fun _ => 0,0,0⟩ 8 0 k me) me.page_table 1 USER_CODE_BASE 1 1 k' := by
  obtain ⟨k,booted⟩ := boot_succeeds (sample_fits false)
  obtain ⟨r,s,m,g,rfl,launch⟩ := boot_launch false booted
  have reached : Reachable (sample false) WaitsWell (launched (sample false) r s m) := .boot booted
  have running : runner (launched (sample false) r s m) = some (initProcess r s) := launched_init _ r s m
  obtain ⟨inv,home,now,_,spaces⟩ := entered_inv launch.user running rfl ⟨fun _ => 0,0,0⟩ 8 0
  have isRoot : g.own r = .root := launch.user.inv.link.root running (by simp [initProcess])
  have strict : (entered ⟨fun _ => 0,0,0⟩ 8 0 (launched (sample false) r s m) (initProcess r s)).hart.reserved_fault = false := rfl
  have here : (entered ⟨fun _ => 0,0,0⟩ 8 0 (launched (sample false) r s m) (initProcess r s)).process_list
      (entered ⟨fun _ => 0,0,0⟩ 8 0 (launched (sample false) r s m) (initProcess r s)).current =
        some (stopped ⟨fun _ => 0,0,0⟩ 8 0 (initProcess r s)) := now
  have at_root : root_of (entered ⟨fun _ => 0,0,0⟩ 8 0 (launched (sample false) r s m) (initProcess r s)).hart.satp = r :=
    home _ now
  -- the code of init is at page 16, readable
  have len : Eager.pageUp (progLen (sample false)) = 1 := by decide
  have initial := launch.initial
  rw [len] at initial
  obtain ⟨p,page⟩ := Option.isSome_iff_exists.mp ((initial.there 16).mpr (.inl ⟨by decide,by decide⟩))
  have readable := (initial.code 16 p (by decide) page).1
  rw [← spaces _ isRoot] at page
  obtain ⟨low,leaf⟩ := space_leaf isRoot page
  rw [space_low low,pageAt_user leaf.valid leaf.user,Option.some.injEq] at page
  rw [← page] at readable
  generalize same : entered ⟨fun _ => 0,0,0⟩ 8 0 (launched (sample false) r s m) (initProcess r s) = k at inv here at_root strict page readable
  have place : pageOf USER_CODE_BASE = 16 := by decide
  have accepted : Accepts k.mm (initProcess r s).page_table USER_CODE_BASE 1 false := by
    refine (accepts_iff inv.good _ isRoot _ _ _).mpr (.inr ⟨by decide,by decide,fun va above below => ⟨_,?_,readable⟩⟩)
    have floor : mask_page USER_CODE_BASE = USER_CODE_BASE := by decide
    rw [show va = USER_CODE_BASE by omega,place]
    exact leaf
  rcases range_cases inv.good (initProcess r s).page_table isRoot USER_CODE_BASE 1 false with ⟨short,_⟩ |
    ⟨res,m',g',ran,_,decides,silent,_⟩
  · exact absurd (fun other => by cases other) short
  have fine := decides.mpr accepted
  subst fine
  obtain ⟨rfl,rfl⟩ := silent rfl
  have loads : (user_load (USER_CODE_BASE+0)).run k = .ok (k.mm.mem (ppn_to_addr ((g'.tree r).leaf 16))) k := by
    have found : Mmu.translate k.hart k.mm.mem .supervisor .load (USER_CODE_BASE+0) = some (ppn_to_addr ((g'.tree r).leaf 16)) := by
      rw [translate_leaf inv.good at_root (show UserLeaf g' r (pageOf (USER_CODE_BASE+0)) _ from leaf),strict,if_pos]
      · rfl
      · have canon : canonical USER_CODE_BASE = true := by decide
        simp [canon,permits,show is_r ((g'.tree r).leaf 16) = true from readable]
    unfold user_load
    rw [run_seq (EStateM.run_get _),found]
    rfl
  have run : (sys_write 1 USER_CODE_BASE 1).run k =
      .ok 1 { k with output := k.output ++ [k.mm.mem (ppn_to_addr ((g'.tree r).leaf 16))] } := by
    unfold sys_write
    rw [if_neg (by decide),run_seq (run_ensure_range here ran)]
    dsimp only
    rw [show List.range' 0 1 = [0] from rfl,List.forM_cons,bind_assoc,bind_assoc,run_seq loads]
    rfl
  subst same
  exact ⟨_,_,_,reached,running,run,sys_write_prints reached running _ run⟩

/-! ### Reading -/

/-- What a read from the console does, by its result. -/
inductive Takes (k : Kernel) (pt : PageTable) (fd buf len : Nat) : Nat → Kernel → Prop
  | bad_fd (other : fd ≠ 0) : Takes k pt fd buf len (linux_error EBADF) k
  | fault {k' : Kernel} (mine : fd = 0) (refused : ¬ (len = 0 ∨ Writable (pagesOf k.mm pt) buf len)) (input : k'.input = k.input)
      (pages : pagesOf k'.mm pt = pagesOf k.mm pt) : Takes k pt fd buf len (linux_error EFAULT) k'
  | taken {k' : Kernel} (mine : fd = 0) (accepted : len = 0 ∨ Writable (pagesOf k.mm pt) buf len)
      (input : ∀ i, k'.input i = k.input (i+len)) (pages : pagesOf k'.mm pt = Eager.write buf k.input len (pagesOf k.mm pt)) :
      Takes k pt fd buf len len k'

section
variable {exact : Bool} {base : Nat} {k k' : Kernel} {g : Ledger} {me : Process} (good : Good exact base k.mm g)
  (running : k.process_list k.current = some me) (isRoot : g.own me.page_table.root = .root)
  (home : root_of k.hart.satp = me.page_table.root)

include good running isRoot home in
theorem run_sys_read {fd buf len r : Nat} (run : (sys_read fd buf len).run k = .ok r k') :
    Takes k me.page_table fd buf len r k' := by
  have here := pagesOf_eq good me.page_table isRoot
  unfold sys_read at run
  split at run
  · rename_i other
    cases run
    exact .bad_fd other
  rename_i zero
  have mine : fd = 0 := not_not.mp zero
  obtain ⟨res,k1,check,rest⟩ := bind_ok run
  obtain ⟨mm,g1,rfl,acts,result⟩ := ensure_range_write good running isRoot check
  cases res with
  | error e =>
    obtain rfl := ensure_range_error running check
    cases rest
    refine .fault mine ?_ rfl ?_
    · rw [here]
      exact result
    · rw [here,← acts.pages]
      exact pagesOf_eq acts.good me.page_table ((acts.aside.roots _).mpr isRoot)
  | ok _ =>
    dsimp only at rest
    obtain ⟨_,k2,loop,last⟩ := bind_ok rest
    cases last
    obtain ⟨mm2,rfl,acts2⟩ := read_loop_acts (k := { k with mm := mm }) acts.good home result.2 loop
    rw [acts.pages] at acts2
    have both := acts.trans acts2
    refine .taken mine ?_ (fun _ => rfl) ?_
    · rw [here]
      exact result.1
    · rw [here,← both.pages]
      exact pagesOf_eq both.good me.page_table ((both.aside.roots _).mpr isRoot)

end

/-- A read that returns has moved the next bytes of the console into the buffer, all of them and in order, or it was
    refused and the console and the pages of its caller are as they were. -/
theorem sys_read_takes {cfg : Config} {k k' : Kernel} {me : Process} (reached : Reachable cfg WaitsWell k)
    (running : runner k = some me) (ctx : Context) {fd buf len r : Nat}
    (run : (sys_read fd buf len).run (entered ctx 8 0 k me) = .ok r k') :
    Takes (entered ctx 8 0 k me) me.page_table fd buf len r k' := by
  obtain ⟨_,_,good,slot,isRoot,home⟩ := entered_good reached running ctx
  exact run_sys_read good slot isRoot home run

/-- Init reads two bytes into a page that it shares with its child. -/
theorem sys_read_takes_shared : ∃ k me k' p, Reachable (sample true) WaitsWell k ∧ runner k = some me ∧
    (sys_read 0 0x20800 2).run (entered ⟨fun _ => 0,0,0⟩ 8 0 k me) = .ok 2 k' ∧
    Takes (entered ⟨fun _ => 0,0,0⟩ 8 0 k me) me.page_table 0 0x20800 2 2 k' ∧
    pagesOf k'.mm me.page_table 32 = some p ∧ p.bytes 0x800 = k.input 0 ∧ p.bytes 0x801 = k.input 1 ∧ p.bytes 0x802 = 0 := by
  obtain ⟨history,o,k,g,init,child,run,_,shared⟩ := sample_shared
  have reached : Reachable (sample true) WaitsWell k := (plain_waits run).reachable
  have running : runner k = some init := shared.running
  obtain ⟨inv,home,now,_,spaces⟩ := entered_inv shared.user running shared.awake ⟨fun _ => 0,0,0⟩ 8 0
  have isRoot := me_root shared.user running shared.awake
  have good := inv.good
  -- the buffer is in the shared page, and there is a frame for a copy
  have page : space (entered ⟨fun _ => 0,0,0⟩ 8 0 k init).mm g init.page_table.root 32 = some (Eager.Page.zero true true false) := by
    rw [spaces _ isRoot]
    exact shared.zeros.1
  obtain ⟨e,leaf,cow⟩ := shared.cow
  have lets : Lets g init.page_table.root true 32 := ⟨e,leaf,.inr ⟨cow,((good.sound.shape leaf).cow cow).1⟩⟩
  have accepts : Accepts (entered ⟨fun _ => 0,0,0⟩ 8 0 k init).mm init.page_table 0x20800 2 true := by
    rw [accepts_iff good init.page_table isRoot]
    refine .inr ⟨by decide,by decide,fun va low high => ?_⟩
    have floor : mask_page 0x20800 = 0x20000 := rfl
    have here : pageOf va = 32 := by unfold pageOf; omega
    rw [here]
    exact lets
  have enough : EnoughFrames (entered ⟨fun _ => 0,0,0⟩ 8 0 k init).mm init.page_table 0x20800 2 true :=
    enough_one true (by decide) (by rw [freeFrames_eq good.mirrors.pool]; exact shared.frames)
  rcases range_cases good init.page_table isRoot 0x20800 2 true with ⟨short,_⟩ | ⟨res,m',g',ran,checks,decides,_,paid⟩
  · exact absurd enough short
  obtain rfl : res = .ok () := decides.mpr accepts
  have canon : ∀ i, i < 2 → canonical (0x20800+i) = true := by decide
  obtain ⟨t,loop,_⟩ := store_loop_runs (k := { entered ⟨fun _ => 0,0,0⟩ 8 0 k init with mm := m' }) checks.acts.good
    (home _ now) (read_loop_stores 0x20800) fun i (below : i < 2) =>
      ⟨canon i below,(paid rfl).2 rfl (by decide) (0x20800+i) (by unfold mask_page; omega) (by omega)⟩
  have done : (sys_read 0 0x20800 2).run (entered ⟨fun _ => 0,0,0⟩ 8 0 k init) = .ok 2 t := by
    unfold sys_read
    rw [if_neg (by decide),run_seq (run_ensure_range now ran)]
    dsimp only
    rw [run_seq loop]
    rfl
  have takes := sys_read_takes reached running _ done
  have before := pagesOf_eq good init.page_table isRoot
  have result : pagesOf t.mm init.page_table = Eager.write 0x20800 k.input 2 (space k.mm g init.page_table.root) := by
    generalize two : 2 = r at takes
    cases takes with
    | bad_fd other => exact absurd rfl other
    | fault => exact absurd two (by decide)
    | taken _ _ _ pages =>
      rw [pages,before,spaces _ isRoot]
      rfl
  have after : pagesOf t.mm init.page_table 32 = some { Eager.Page.zero true true false with
      bytes := Function.update (Function.update (fun _ => 0) 0x800 (k.input 0)) 0x801 (k.input 1) } := by
    rw [result]
    unfold Eager.write Eager.write Eager.write Eager.writeByte
    rw [if_pos (by decide),if_pos (by decide),shared.zeros.1]
    rfl
  exact ⟨k,init,t,_,reached,running,done,takes,after,by simp,by simp,by simp⟩

end Unit00.Console
