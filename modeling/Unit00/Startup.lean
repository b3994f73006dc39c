import Unit00.Runs

/-!
The boot as a whole. Every boot ends in one of two ways: init begins, alone in the system,
with its code and its stack and nothing else in its address space, or the kernel image, the
program and what the boot allocates for them do not fit and the kernel panicked.
-/
namespace Unit00.Startup
open Unit00.Memory Unit00.Frame Unit00.Paging Unit00.Ownership Unit00.Mirror Unit00.Invariant Unit00.Task Unit00.Machine
open Unit00.Services Unit00.Boot Unit00.Runs
open Unit00.Eager (pageUp)

/-- The machine at the first instruction of init. -/
structure Begins (cfg : Config) (k : Kernel) (me : Process) : Prop where
  running : runner k = some me
  alone : ∀ i p, k.process_list i = some p → i = k.current
  ids : me.pid = 1 ∧ me.parent_pid = 0 ∧ me.state = .Running ∧ k.next_pid = 2
  pages : Initial (pagesOf k.mm me.page_table) (pageUp (progLen cfg))
  program : cfg.prog_start+progLen cfg ≤ cfg.kernel_end →
    Copied (programByte cfg.mem cfg.prog_start (progLen cfg)) (pagesOf k.mm me.page_table)
  heap : me.heap_start = USER_HEAP_START ∧ me.heap_end = USER_HEAP_START
  areas : ∀ i, (me.mmap_areas i).used = false
  entry : k.hart.sepc = BitVec.ofNat 64 USER_CODE_BASE ∧ k.hart.sstatus = TrapFrame.SSTATUS_SPIE
  regs : ∀ i, k.hart.regs i = if i = TrapFrame.REG_SP then BitVec.ofNat 64 (USER_STACK_PAGE+PAGE_SIZE) else 0
  home : k.hart.satp = me.page_table.satp_val ∧ k.hart.sscratch = me.kernel_sp

theorem new_user_regs (entry user_sp : Nat) (i : Fin 32) :
    (TrapFrame.new_user entry user_sp).regs i = if i = TrapFrame.REG_SP then BitVec.ofNat 64 user_sp else 0 :=
  Function.update_apply (fun _ => (0 : BitVec 64)) TrapFrame.REG_SP (BitVec.ofNat 64 user_sp) i

theorem launched_begins {cfg : Config} {r s : Nat} {m : Mm} {g : Ledger} (launch : Launch false cfg r s m g) :
    Begins cfg (launched cfg r s m) (initProcess r s) := by
  have running : (launched cfg r s m).process_list 0 = some (initProcess r s) := launched_init cfg r s m
  have isRoot := launch.user.inv.link.root running (by simp [initProcess])
  -- what `trap_exit_restore` reads is the frame that `rust_main` wrote
  have frame : TrapFrame.image (launched cfg r s m).mm.mem (s+KERNEL_STACK_SIZE-TrapFrame.SIZE) =
      TrapFrame.new_user USER_CODE_BASE 0x3F001000 := image_words _ _ _
  refine ⟨running,fun i p slot => (launched_only slot).1,⟨rfl,rfl,rfl,rfl⟩,?_,fun inside => ?_,⟨rfl,rfl⟩,fun _ => rfl,⟨?_,?_⟩,
    fun i => ?_,⟨rfl,?_⟩⟩
  · rw [pagesOf_eq launch.user.inv.good _ isRoot]
    exact launch.initial
  · have image : cfg.kernel_end ≤ bootBase cfg := by
      unfold bootBase mask_page
      omega
    rw [pagesOf_eq launch.user.inv.good _ isRoot]
    exact launch.program (inside.trans image)
  · exact congrArg TrapFrame.sepc frame
  · exact congrArg TrapFrame.sstatus frame
  · show Function.update (TrapFrame.image (launched cfg r s m).mm.mem (s+KERNEL_STACK_SIZE-TrapFrame.SIZE)).regs 0 0 i = _
    rw [frame]
    by_cases zero : i = 0
    · subst zero
      rw [Function.update_self,if_neg (by decide)]
    · rw [Function.update_of_ne zero]
      exact new_user_regs USER_CODE_BASE 0x3F001000 i
  · exact launch.user.sscratch _ running

/-- The boot ends in user mode, at the first instruction of init, or in a panic when something does not fit. -/
theorem boot_outcome (cfg : Config) :
    (∃ k me, boot cfg = .user k ∧ Begins cfg k me) ∨ (¬ BootFits cfg ∧ ∃ e k, boot cfg = .halted (.panicked e) k) := by
  rcases boot_cases false cfg with failed | ⟨r,s,m,g,run,launch⟩
  · exact .inr failed
  · exact .inl ⟨_,_,run,launched_begins launch⟩

end Unit00.Startup
