import Unit00.Riscv
import Unit00.Contexts

/-!
The assembly of `trap_entry` and `trap_exit_restore`. What the model of the
machine says about entering a trap and leaving it is what these instructions
do, whatever the registers of the user program are.
-/
namespace Unit00.TrapEntry
open Unit00.Memory Unit00.Riscv Unit00.Riscv.Reg Unit00.Task Unit00.Machine Unit00.Invariant Unit00.Contexts

/-! ### The listing -/

/-- The labels of the listing, and the functions it calls; the local label is `1`. -/
inductive Label
  | trap_entry
  | trap_exit_restore
  | one
  | trap_handler
  | kernel_trap_handler
  deriving DecidableEq

open Line Instr in
def listing : List (Line Label) := [
  label .trap_entry,
  instr (csrrw t0 .sscratch t0),
  bnez t0 .one,
  instr (csrrw t0 .sscratch t0),
  call .kernel_trap_handler,
  label .one,
  instr (addi t0 t0 (-288)),
  instr (sd zero 0 t0),
  instr (sd ra 8 t0),
  instr (sd sp 16 t0),
  instr (sd gp 24 t0),
  instr (sd tp 32 t0),
  instr (sd t1 48 t0),
  instr (csrr t1 .sscratch),
  instr (sd t1 40 t0),
  instr (sd t2 56 t0),
  instr (sd s0 64 t0),
  instr (sd s1 72 t0),
  instr (sd a0 80 t0),
  instr (sd a1 88 t0),
  instr (sd a2 96 t0),
  instr (sd a3 104 t0),
  instr (sd a4 112 t0),
  instr (sd a5 120 t0),
  instr (sd a6 128 t0),
  instr (sd a7 136 t0),
  instr (sd s2 144 t0),
  instr (sd s3 152 t0),
  instr (sd s4 160 t0),
  instr (sd s5 168 t0),
  instr (sd s6 176 t0),
  instr (sd s7 184 t0),
  instr (sd s8 192 t0),
  instr (sd s9 200 t0),
  instr (sd s10 208 t0),
  instr (sd s11 216 t0),
  instr (sd t3 224 t0),
  instr (sd t4 232 t0),
  instr (sd t5 240 t0),
  instr (sd t6 248 t0),
  instr (csrr t1 .sstatus),
  instr (sd t1 256 t0),
  instr (csrr t1 .sepc),
  instr (sd t1 264 t0),
  instr (csrr t1 .scause),
  instr (sd t1 272 t0),
  instr (csrr t1 .stval),
  instr (sd t1 280 t0),
  instr (mv sp t0),
  instr (csrw .sscratch zero),
  instr (ld a0 272 sp),
  instr (ld a1 264 sp),
  instr (ld a2 80 sp),
  instr (ld a3 88 sp),
  instr (ld a4 96 sp),
  instr (ld a5 136 sp),
  instr (ld a6 280 sp),
  call .trap_handler,
  instr (ld t0 272 sp),
  instr (li t1 8),
  bne t0 t1 .one,
  instr (sd a0 80 sp),
  instr (ld t0 264 sp),
  instr (addi t0 t0 4),
  instr (sd t0 264 sp),
  label .one,
  j .trap_exit_restore,
  label .trap_exit_restore,
  instr (ld t0 264 sp),
  instr (csrw .sepc t0),
  instr (ld t0 256 sp),
  instr (csrw .sstatus t0),
  instr (ld t0 16 sp),
  instr (csrw .sscratch t0),
  instr (ld ra 8 sp),
  instr (ld gp 24 sp),
  instr (ld tp 32 sp),
  instr (ld t1 48 sp),
  instr (ld t2 56 sp),
  instr (ld s0 64 sp),
  instr (ld s1 72 sp),
  instr (ld a0 80 sp),
  instr (ld a1 88 sp),
  instr (ld a2 96 sp),
  instr (ld a3 104 sp),
  instr (ld a4 112 sp),
  instr (ld a5 120 sp),
  instr (ld a6 128 sp),
  instr (ld a7 136 sp),
  instr (ld s2 144 sp),
  instr (ld s3 152 sp),
  instr (ld s4 160 sp),
  instr (ld s5 168 sp),
  instr (ld s6 176 sp),
  instr (ld s7 184 sp),
  instr (ld s8 192 sp),
  instr (ld s9 200 sp),
  instr (ld s10 208 sp),
  instr (ld s11 216 sp),
  instr (ld t3 224 sp),
  instr (ld t4 232 sp),
  instr (ld t5 240 sp),
  instr (ld t6 248 sp),
  instr (ld t0 40 sp),
  instr (addi sp sp 288),
  instr (csrrw sp .sscratch sp),
  sret]

/-! ### Its parts -/

/-- The registers that are stored while `t1` and `sscratch` are still the user's. -/
def firstSlots : List (Reg × Nat) := [(zero,0),(ra,8),(sp,16),(gp,24),(tp,32),(t1,48)]

/-- The registers that are stored after `t1` was given the user's `t0`. -/
def restSlots : List (Reg × Nat) :=
  [(t1,40),(t2,56),(s0,64),(s1,72),(a0,80),(a1,88),(a2,96),(a3,104),(a4,112),(a5,120),(a6,128),(a7,136),(s2,144),(s3,152),
    (s4,160),(s5,168),(s6,176),(s7,184),(s8,192),(s9,200),(s10,208),(s11,216),(t3,224),(t4,232),(t5,240),(t6,248)]

/-- The arguments of `trap_handler`. -/
def argumentSlots : List (Reg × Nat) := [(a0,272),(a1,264),(a2,80),(a3,88),(a4,96),(a5,136),(a6,280)]

/-- The registers that `trap_exit_restore` loads. -/
def restoreSlots : List (Reg × Nat) :=
  [(ra,8),(gp,24),(tp,32),(t1,48),(t2,56),(s0,64),(s1,72),(a0,80),(a1,88),(a2,96),(a3,104),(a4,112),(a5,120),(a6,128),
    (a7,136),(s2,144),(s3,152),(s4,160),(s5,168),(s6,176),(s7,184),(s8,192),(s9,200),(s10,208),(s11,216),(t3,224),
    (t4,232),(t5,240),(t6,248),(t0,40)]

def save_regs : List Instr := saves t0 firstSlots ++ [.csrr t1 .sscratch] ++ saves t0 restSlots

def save_csrs : List Instr :=
  [.csrr t1 .sstatus,.sd t1 256 t0,.csrr t1 .sepc,.sd t1 264 t0,.csrr t1 .scause,.sd t1 272 t0,.csrr t1 .stval,.sd t1 280 t0]

def hand_over : List Instr := [.mv sp t0,.csrw .sscratch zero] ++ loads sp argumentSlots

def answer : List Instr := [.sd a0 80 sp,.ld t0 264 sp,.addi t0 t0 4,.sd t0 264 sp]

def restore_csrs : List Instr :=
  [.ld t0 264 sp,.csrw .sepc t0,.ld t0 256 sp,.csrw .sstatus t0,.ld t0 16 sp,.csrw .sscratch t0]

def restore_regs : List Instr := loads sp restoreSlots ++ [.addi sp sp 288,.csrrw sp .sscratch sp]

/-- From `trap_exit_restore` on. -/
def leaving : List (Line Label) := (restore_csrs ++ restore_regs).map .instr ++ [.sret]

/-- From the return of `trap_handler` on. -/
def returning : List (Line Label) :=
  [Instr.ld t0 272 sp,.li t1 8].map .instr ++ [.bne t0 t1 .one] ++ answer.map .instr ++ [.label .one,.j .trap_exit_restore] ++
    [.label .trap_exit_restore] ++ leaving

/-- From the first label `1` on. -/
def entering : List (Line Label) :=
  ([Instr.addi t0 t0 (-288)] ++ save_regs ++ save_csrs ++ hand_over).map .instr ++ [.call .trap_handler] ++ returning

theorem listing_parts : listing = [.label .trap_entry,.instr (.csrrw t0 .sscratch t0),.bnez t0 .one,
    .instr (.csrrw t0 .sscratch t0),.call .kernel_trap_handler,.label .one] ++ entering := rfl

/-! ### Into the handler -/

/-- The bytes outside the 36 doublewords of a frame. -/
def Outside (base : BitVec 64) (b : Nat) : Prop := ∀ i, i < 36 → Away base (8*i) b

theorem slot_away {base : BitVec 64} {slots : List (Reg × Nat)} (good : ∀ p ∈ slots, p.2%8 = 0 ∧ p.2 < 288) {b : Nat}
    (outside : Outside base b) : ∀ p ∈ slots, Away base p.2 b := by
  intro p inside
  obtain ⟨whole,small⟩ := good p inside
  have same : p.2 = 8*(p.2/8) := by omega
  rw [same]
  exact outside _ (by omega)

/-- The state after the general registers were stored in the frame at `base`. -/
structure Stored (s : State) (base : BitVec 64) (x : State) : Prop where
  t0 : x.reg t0 = base
  regs : ∀ r, r ≠ Reg.t0 → r ≠ t1 → x.reg r = s.reg r
  csrs : ∀ c, c ≠ .sscratch → x.csrs c = s.csrs c
  words : ∀ i : Fin 32, word x.mem base (8*i) = s.reg i
  outside : ∀ b, Outside base b → x.mem b = s.mem b

theorem firstSlots_find (i : Fin 32) : firstSlots.find? (fun p => p.2 = 8*i.val) =
    if i ∈ [zero,ra,sp,gp,tp,t1] then some (i,8*i.val) else none := by
  revert i
  decide

theorem restSlots_find (i : Fin 32) : restSlots.find? (fun p => p.2 = 8*i.val) =
    if i ∈ [zero,ra,sp,gp,tp,t1] then none else some (if i = t0 then t1 else i,8*i.val) := by
  revert i
  decide

theorem firstSlots_good : Slots firstSlots := by decide

theorem restSlots_good : Slots restSlots := by decide

/-- The scratch register swapped with `t0`, and `t0` set to the bottom of the frame. -/
structure Swapped (s : State) (base : BitVec 64) (v : State) : Prop where
  t0 : v.reg t0 = base
  regs : ∀ r, r ≠ Reg.t0 → v.reg r = s.reg r
  scratch : v.csrs .sscratch = s.reg Reg.t0
  csrs : ∀ c, c ≠ .sscratch → v.csrs c = s.csrs c
  mem : v.mem = s.mem

theorem run_save_regs {s v : State} {base : BitVec 64} (swapped : Swapped s base v) : Stored s base (run save_regs v) := by
  have apart : t0 ≠ t1 := by decide
  have nonzero : t1 ≠ 0 := by decide
  unfold save_regs
  rw [run_append,run_append,run_cons,run_nil,run_saves,run_saves,swapped.t0]
  -- the user's t0 comes back from sscratch to t1 once t1 is stored
  obtain ⟨w,middle⟩ : ∃ w, exec { v with mem := saved v.reg base firstSlots v.mem } (.csrr t1 .sscratch) = w := ⟨_,rfl⟩
  have wEq : w = ({ v with mem := saved v.reg base firstSlots s.mem } : State).setReg t1 (s.reg t0) := by
    rw [← middle,← swapped.mem,← swapped.scratch]
    rfl
  have wBase : w.reg t0 = base := by
    rw [wEq,reg_setReg_of_ne apart,reg_mem,swapped.t0]
  have wScratch : w.reg t1 = s.reg t0 := by
    rw [wEq,reg_setReg_self nonzero]
  have wRegs : ∀ r, r ≠ t0 → r ≠ t1 → w.reg r = s.reg r := by
    intro r first second
    rw [wEq,reg_setReg_of_ne second,reg_mem,swapped.regs r first]
  have wMem : w.mem = saved v.reg base firstSlots s.mem := by
    rw [wEq,mem_setReg]
  have wCsrs : w.csrs = v.csrs := by
    rw [wEq,csrs_setReg]
  rw [middle,wBase,wMem]
  refine ⟨wBase,wRegs,fun c other => ?_,fun i => ?_,fun b outside => ?_⟩
  · show w.csrs c = s.csrs c
    rw [wCsrs,swapped.csrs c other]
  · dsimp only
    rw [word_saved _ _ restSlots_good _ (by omega) (by omega),word_saved _ _ firstSlots_good _ (by omega) (by omega),restSlots_find,
      firstSlots_find]
    by_cases early : i ∈ [zero,ra,sp,gp,tp,t1]
    · rw [if_pos early,if_pos early]
      refine swapped.regs i ?_
      rintro rfl
      exact absurd early (by decide)
    · rw [if_neg early]
      by_cases here : i = t0
      · rw [if_pos here,here]
        exact wScratch
      · rw [if_neg here]
        refine wRegs i here ?_
        rintro rfl
        exact absurd early (by decide)
  · dsimp only
    rw [saved_away _ _ _ _ (slot_away (by decide) outside),saved_away _ _ _ _ (slot_away (by decide) outside)]

/-- The whole frame, with what the state is when `trap_handler` is called. -/
structure Called (s : State) (base : BitVec 64) (x : State) : Prop where
  sp : x.reg sp = base
  scratch : x.csrs .sscratch = 0
  csrs : ∀ c, c ≠ .sscratch → x.csrs c = s.csrs c
  regs : ∀ i : Fin 32, word x.mem base (8*i) = s.reg i
  sstatus : word x.mem base 256 = s.csrs .sstatus
  sepc : word x.mem base 264 = s.csrs .sepc
  scause : word x.mem base 272 = s.csrs .scause
  stval : word x.mem base 280 = s.csrs .stval
  outside : ∀ b, Outside base b → x.mem b = s.mem b
  arguments : x.reg a0 = s.csrs .scause ∧ x.reg a1 = s.csrs .sepc ∧ x.reg a2 = s.reg a0 ∧ x.reg a3 = s.reg a1 ∧
    x.reg a4 = s.reg a2 ∧ x.reg a5 = s.reg a7 ∧ x.reg a6 = s.csrs .stval

theorem swap_spec (s : State) :
    Swapped s (s.csrs .sscratch+BitVec.ofInt 64 (-288)) (run [.csrrw t0 .sscratch t0,.addi t0 t0 (-288)] s) := by
  have nonzero : t0 ≠ 0 := by decide
  have first : exec s (.csrrw t0 .sscratch t0) = (s.setCsr .sscratch (s.reg t0)).setReg t0 (s.csrs .sscratch) := rfl
  have second : ∀ u : State, exec u (.addi t0 t0 (-288)) = u.setReg t0 (u.reg t0+BitVec.ofInt 64 (-288)) := fun _ => rfl
  rw [run_cons,run_cons,run_nil,first,second,reg_setReg_self nonzero]
  refine ⟨reg_setReg_self nonzero,fun r other => ?_,?_,fun c other => ?_,?_⟩
  · rw [reg_setReg_of_ne other,reg_setReg_of_ne other,reg_setCsr]
  · rw [csrs_setReg,csrs_setReg,csrs_setCsr_self]
  · rw [csrs_setReg,csrs_setReg,csrs_setCsr_of_ne other]
  · rw [mem_setReg,mem_setReg,mem_setCsr]

/-- A CSR stored in the frame through `t1`. -/
theorem save_csr (x : State) (c : Csr) (o : Nat) :
    run [.csrr t1 c,.sd t1 o t0] x = { x.setReg t1 (x.csrs c) with mem := setWord x.mem (x.reg t0) o (x.csrs c) } := by
  have nonzero : t1 ≠ 0 := by decide
  have apart : t0 ≠ t1 := by decide
  have first : exec x (.csrr t1 c) = x.setReg t1 (x.csrs c) := rfl
  have second : ∀ u : State, exec u (.sd t1 o t0) = { u with mem := setWord u.mem (u.reg t0) o (u.reg t1) } := fun _ => rfl
  rw [run_cons,run_cons,run_nil,first,second,reg_setReg_self nonzero,reg_setReg_of_ne apart,mem_setReg]

theorem run_save_csrs {s x : State} {base : BitVec 64} (stored : Stored s base x) :
    Stored s base (run save_csrs x) ∧ word (run save_csrs x).mem base 256 = s.csrs .sstatus ∧
      word (run save_csrs x).mem base 264 = s.csrs .sepc ∧ word (run save_csrs x).mem base 272 = s.csrs .scause ∧
      word (run save_csrs x).mem base 280 = s.csrs .stval := by
  have apart : t0 ≠ t1 := by decide
  -- one CSR at a time: a doubleword above the registers is written and nothing else of the frame changes
  have one : ∀ {y : State} (c : Csr) (o : Nat), c ≠ .sscratch → 256 ≤ o → o%8 = 0 → o < 288 → Stored s base y →
      Stored s base (run [.csrr t1 c,.sd t1 o t0] y) ∧ word (run [.csrr t1 c,.sd t1 o t0] y).mem base o = s.csrs c ∧
      ∀ p, p%8 = 0 → p < 288 → p ≠ o → word (run [.csrr t1 c,.sd t1 o t0] y).mem base p = word y.mem base p := by
    intro y c o named low whole high before
    rw [save_csr,before.t0,before.csrs c named]
    refine ⟨⟨?_,?_,?_,?_,?_⟩,?_,?_⟩
    · show (y.setReg t1 (s.csrs c)).reg t0 = base
      rw [reg_setReg_of_ne apart,before.t0]
    · intro r first second
      show (y.setReg t1 (s.csrs c)).reg r = s.reg r
      rw [reg_setReg_of_ne second,before.regs r first second]
    · intro d other
      show (y.setReg t1 (s.csrs c)).csrs d = s.csrs d
      rw [csrs_setReg,before.csrs d other]
    · intro i
      show word (setWord y.mem base o (s.csrs c)) base (8*i) = s.reg i
      rw [word_setWord base _ (by omega) (by omega) whole (by omega),if_neg (by omega),before.words i]
    · intro b outside
      show setWord y.mem base o (s.csrs c) b = s.mem b
      have away : Away base o b := by
        rw [show o = 8*(o/8) by omega]
        exact outside _ (by omega)
      rw [setWord_away away,before.outside b outside]
    · show word (setWord y.mem base o (s.csrs c)) base o = s.csrs c
      rw [word_setWord base _ (by omega) (by omega) whole whole,if_pos rfl]
    · intro p wholeP small other
      show word (setWord y.mem base o (s.csrs c)) base p = _
      rw [word_setWord base _ (by omega) (by omega) whole wholeP,if_neg other]
  obtain ⟨s1,w1,_⟩ := one .sstatus 256 (by decide) (by decide) (by decide) (by decide) stored
  obtain ⟨s2,w2,keep2⟩ := one .sepc 264 (by decide) (by decide) (by decide) (by decide) s1
  obtain ⟨s3,w3,keep3⟩ := one .scause 272 (by decide) (by decide) (by decide) (by decide) s2
  obtain ⟨s4,w4,keep4⟩ := one .stval 280 (by decide) (by decide) (by decide) (by decide) s3
  refine ⟨s4,?_,?_,?_,w4⟩
  · exact (keep4 256 (by decide) (by decide) (by decide)).trans
      ((keep3 256 (by decide) (by decide) (by decide)).trans ((keep2 256 (by decide) (by decide) (by decide)).trans w1))
  · exact (keep4 264 (by decide) (by decide) (by decide)).trans ((keep3 264 (by decide) (by decide) (by decide)).trans w2)
  · exact (keep4 272 (by decide) (by decide) (by decide)).trans w3

theorem run_hand_over {s x : State} {base : BitVec 64} (stored : Stored s base x)
    (sstatus : word x.mem base 256 = s.csrs .sstatus) (sepc : word x.mem base 264 = s.csrs .sepc)
    (scause : word x.mem base 272 = s.csrs .scause) (stval : word x.mem base 280 = s.csrs .stval) :
    Called s base (run hand_over x) := by
  have nonzero : sp ≠ 0 := by decide
  have first : exec x (.mv sp t0) = x.setReg sp (x.reg t0) := rfl
  have second : ∀ u : State, exec u (.csrw .sscratch zero) = u.setCsr .sscratch 0 := fun _ => rfl
  have whole : run hand_over x = run (loads sp argumentSlots) ((x.setReg sp base).setCsr .sscratch 0) := by
    unfold hand_over
    rw [run_append,run_cons,run_cons,run_nil,first,second,stored.t0]
  have spared : ∀ p ∈ argumentSlots, p.1 ≠ sp ∧ p.1 ≠ 0 := by decide
  obtain ⟨csrs,mem,regs⟩ := run_loads spared (by decide) ((x.setReg sp base).setCsr .sscratch 0)
  rw [reg_setCsr,reg_setReg_self nonzero,mem_setCsr,mem_setReg] at regs
  rw [mem_setCsr,mem_setReg] at mem
  have loaded : ∀ r o, argumentSlots.find? (fun p => p.1 = r) = some (r,o) → (run hand_over x).reg r = word x.mem base o := by
    intro r o found
    rw [whole,regs r,found]
  refine ⟨?_,?_,?_,?_,?_,?_,?_,?_,?_,?_⟩
  · rw [whole,regs sp,show argumentSlots.find? (fun p => p.1 = sp) = none by decide]
    show ((x.setReg sp base).setCsr .sscratch 0).reg sp = base
    rw [reg_setCsr,reg_setReg_self nonzero]
  · rw [whole,csrs,csrs_setCsr_self]
  · intro c other
    rw [whole,csrs,csrs_setCsr_of_ne other,csrs_setReg,stored.csrs c other]
  · intro i
    rw [whole,mem,stored.words i]
  · rw [whole,mem,sstatus]
  · rw [whole,mem,sepc]
  · rw [whole,mem,scause]
  · rw [whole,mem,stval]
  · intro b outside
    rw [whole,mem,stored.outside b outside]
  · refine ⟨?_,?_,?_,?_,?_,?_,?_⟩
    · rw [loaded a0 272 (by decide),scause]
    · rw [loaded a1 264 (by decide),sepc]
    · exact (loaded a2 80 (by decide)).trans (stored.words a0)
    · exact (loaded a3 88 (by decide)).trans (stored.words a1)
    · exact (loaded a4 96 (by decide)).trans (stored.words a2)
    · exact (loaded a5 136 (by decide)).trans (stored.words a7)
    · rw [loaded a6 280 (by decide),stval]

/-- A trap from user mode reaches `trap_handler` with its frame below the kernel stack pointer. -/
theorem entry_reaches (s : State) (nonzero : s.csrs .sscratch ≠ 0) :
    ∃ x, Reaches listing (listing,s) (.call .trap_handler :: returning,x) ∧
      Called s (s.csrs .sscratch+BitVec.ofInt 64 (-288)) x := by
  have stored := run_save_regs (swap_spec s)
  obtain ⟨stored',sstatus,sepc,scause,stval⟩ := run_save_csrs stored
  refine ⟨_,?_,run_hand_over stored' sstatus sepc scause stval⟩
  obtain ⟨u,swap⟩ : ∃ u, exec s (.csrrw t0 .sscratch t0) = u := ⟨_,rfl⟩
  have user : u.reg t0 ≠ 0 := by
    rw [← swap]
    show ((s.setCsr .sscratch (s.reg t0)).setReg t0 (s.csrs .sscratch)).reg t0 ≠ 0
    rw [reg_setReg_self (by decide)]
    exact nonzero
  have jump : step listing (.bnez t0 .one :: [.instr (.csrrw t0 .sscratch t0),.call .kernel_trap_handler,.label .one] ++ entering,u) =
      some (entering,u) := by
    show some (if u.reg t0 ≠ 0 then goto Label.one _ else _,u) = _
    rw [if_pos user]
    rfl
  rw [run_cons,swap,← run_append,← run_append,← run_append]
  refine .head (b := (.instr (.csrrw t0 .sscratch t0) :: .bnez t0 .one ::
    [.instr (.csrrw t0 .sscratch t0),.call .kernel_trap_handler,.label .one] ++ entering,s)) rfl ?_
  refine .head (b := (.bnez t0 .one :: [.instr (.csrrw t0 .sscratch t0),.call .kernel_trap_handler,.label .one] ++ entering,u)) ?_ ?_
  · rw [← swap]
    rfl
  refine .head jump ?_
  have parts : entering = ([Instr.addi t0 t0 (-288)] ++ (save_regs ++ (save_csrs ++ hand_over))).map .instr ++
      (.call .trap_handler :: returning) := rfl
  rw [parts]
  exact reaches_run listing _ _ u

/-! ### Out of the handler -/

/-- The memory when a handler that returned `r` is left: for a system call the frame has its result as `a0` and `sepc`
    behind the `ecall`. -/
def answered (m : Mem) (base r : BitVec 64) : Mem :=
  if word m base 272 = 8 then setWord (setWord m base 80 r) base 264 (word m base 264+4) else m

theorem word_answered (m : Mem) (base r : BitVec 64) {o : Nat} (whole : o%8 = 0) (small : o < 288) :
    word (answered m base r) base o =
      if word m base 272 = 8 then if o = 264 then word m base 264+4 else if o = 80 then r else word m base o
      else word m base o := by
  unfold answered
  by_cases call : word m base 272 = 8
  · rw [if_pos call,if_pos call,word_setWord base _ (by decide) (by omega) (by decide) whole,
      word_setWord base _ (by decide) (by omega) (by decide) whole]
  · rw [if_neg call,if_neg call]

theorem run_answer {y : State} {base : BitVec 64} (atFrame : y.reg sp = base) :
    (run answer y).reg sp = base ∧
      (run answer y).mem = setWord (setWord y.mem base 80 (y.reg a0)) base 264 (word y.mem base 264+4) := by
  have nonzero : t0 ≠ 0 := by decide
  have apart : sp ≠ t0 := by decide
  have first : exec y (.sd a0 80 sp) = { y with mem := setWord y.mem (y.reg sp) 80 (y.reg a0) } := rfl
  have second : ∀ u : State, exec u (.ld t0 264 sp) = u.setReg t0 (word u.mem (u.reg sp) 264) := fun _ => rfl
  have third : ∀ u : State, exec u (.addi t0 t0 4) = u.setReg t0 (u.reg t0+4) := fun _ => rfl
  have fourth : ∀ u : State, exec u (.sd t0 264 sp) = { u with mem := setWord u.mem (u.reg sp) 264 (u.reg t0) } := fun _ => rfl
  unfold answer
  rw [run_cons,run_cons,run_cons,run_cons,run_nil,first,second,third,fourth]
  simp only [reg_setReg_self nonzero,reg_setReg_of_ne apart,reg_mem,mem_setReg,atFrame]
  rw [word_setWord base _ (by decide) (by decide) (by decide) (by decide),if_neg (by decide)]
  exact ⟨trivial,rfl⟩

/-- The return of `trap_handler` leads to `trap_exit_restore` with the answer in the frame. -/
theorem return_reaches {y : State} {base : BitVec 64} (atFrame : y.reg sp = base) :
    ∃ z, Reaches listing (returning,y) (leaving,z) ∧ z.reg sp = base ∧ z.mem = answered y.mem base (y.reg a0) := by
  have names : t0 ≠ 0 ∧ t1 ≠ 0 ∧ t0 ≠ t1 ∧ sp ≠ t0 ∧ sp ≠ t1 ∧ a0 ≠ t0 ∧ a0 ≠ t1 := by decide
  obtain ⟨nonzero,nonzero',apart,spOther,spOther',aOther,aOther'⟩ := names
  have loaded : run [.ld t0 272 sp,.li t1 8] y = (y.setReg t0 (word y.mem base 272)).setReg t1 8 := by
    rw [← atFrame]
    rfl
  obtain ⟨x,start⟩ : ∃ x, run [.ld t0 272 sp,.li t1 8] y = x := ⟨_,rfl⟩
  rw [loaded] at start
  have cause : x.reg t0 = word y.mem base 272 := by
    rw [← start,reg_setReg_of_ne apart,reg_setReg_self nonzero]
  have eight : x.reg t1 = 8 := by
    rw [← start,reg_setReg_self nonzero']
  have xSp : x.reg sp = base := by
    rw [← start,reg_setReg_of_ne spOther',reg_setReg_of_ne spOther,atFrame]
  have xA0 : x.reg a0 = y.reg a0 := by
    rw [← start,reg_setReg_of_ne aOther',reg_setReg_of_ne aOther]
  have xMem : x.mem = y.mem := by
    rw [← start,mem_setReg,mem_setReg]
  have ahead : Reaches listing (returning,y) (.bne t0 t1 .one :: (answer.map .instr ++
      [.label .one,.j .trap_exit_restore,.label .trap_exit_restore] ++ leaving),x) := by
    rw [← start,← loaded]
    exact reaches_run listing [.ld t0 272 sp,.li t1 8] _ y
  have exit : ∀ z, Reaches listing ([.label .one,.j .trap_exit_restore,.label .trap_exit_restore] ++ leaving,z) (leaving,z) :=
    fun z => .head rfl (.head rfl .refl)
  have branch : step listing (.bne t0 t1 .one :: (answer.map .instr ++
      [.label .one,.j .trap_exit_restore,.label .trap_exit_restore] ++ leaving),x) =
      some (if x.reg t0 ≠ x.reg t1 then [.j .trap_exit_restore,.label .trap_exit_restore] ++ leaving
        else answer.map .instr ++ ([.label .one,.j .trap_exit_restore,.label .trap_exit_restore] ++ leaving),x) := rfl
  rw [cause,eight] at branch
  by_cases call : word y.mem base 272 = 8
  · rw [if_neg (by simp [call])] at branch
    obtain ⟨zSp,zMem⟩ := run_answer xSp
    refine ⟨run answer x,?_,zSp,?_⟩
    · exact ahead.trans (.head branch ((reaches_run listing answer _ x).trans (exit _)))
    · rw [zMem,xMem,xA0,answered,if_pos call]
  · rw [if_pos call] at branch
    exact ⟨x,ahead.trans (.head branch (.head rfl .refl)),xSp,by rw [xMem,answered,if_neg call]⟩

theorem restoreSlots_find (r : Fin 32) : restoreSlots.find? (fun p => p.1 = r) =
    if r ∈ [zero,sp] then none else some (r,8*r.val) := by
  revert r
  decide

/-- What `trap_exit_restore` takes from the frame. -/
structure Restored (z : State) (base : BitVec 64) (x : State) : Prop where
  regs : ∀ r : Fin 32, r ≠ 0 → x.reg r = word z.mem base (8*r)
  sepc : x.csrs .sepc = word z.mem base 264
  sstatus : x.csrs .sstatus = word z.mem base 256
  scratch : x.csrs .sscratch = base+BitVec.ofInt 64 288
  mem : x.mem = z.mem

theorem load_csr {u : State} {base : BitVec 64} (atFrame : u.reg sp = base) (o : Nat) (c : Csr) :
    ∃ v, run [.ld t0 o sp,.csrw c t0] u = v ∧ v.reg sp = base ∧ v.mem = u.mem ∧ v.csrs c = word u.mem base o ∧
      ∀ d, d ≠ c → v.csrs d = u.csrs d := by
  have nonzero : t0 ≠ 0 := by decide
  have apart : sp ≠ t0 := by decide
  have load : exec u (.ld t0 o sp) = u.setReg t0 (word u.mem (u.reg sp) o) := rfl
  have move : ∀ w : State, exec w (.csrw c t0) = w.setCsr c (w.reg t0) := fun _ => rfl
  refine ⟨(u.setReg t0 (word u.mem base o)).setCsr c (word u.mem base o),?_,?_,?_,?_,fun d other => ?_⟩
  · rw [run_cons,run_cons,run_nil,load,move,atFrame,reg_setReg_self nonzero]
  · rw [reg_setCsr,reg_setReg_of_ne apart,atFrame]
  · rw [mem_setCsr,mem_setReg]
  · rw [csrs_setCsr_self]
  · rw [csrs_setCsr_of_ne other,csrs_setReg]

theorem run_restore_csrs {z : State} {base : BitVec 64} (atFrame : z.reg sp = base) :
    ∃ x, run restore_csrs z = x ∧ x.reg sp = base ∧ x.mem = z.mem ∧ x.csrs .sepc = word z.mem base 264 ∧
      x.csrs .sstatus = word z.mem base 256 ∧ x.csrs .sscratch = word z.mem base 16 := by
  have parts : restore_csrs = [.ld t0 264 sp,.csrw .sepc t0] ++ [.ld t0 256 sp,.csrw .sstatus t0] ++
      [.ld t0 16 sp,.csrw .sscratch t0] := rfl
  obtain ⟨u,first,uSp,uMem,uSepc,_⟩ := load_csr atFrame 264 .sepc
  obtain ⟨v,second,vSp,vMem,vStatus,vCsrs⟩ := load_csr uSp 256 .sstatus
  obtain ⟨x,third,xSp,xMem,xScratch,xCsrs⟩ := load_csr vSp 16 .sscratch
  refine ⟨x,?_,xSp,?_,?_,?_,?_⟩
  · rw [parts,run_append,run_append,first,second,third]
  · rw [xMem,vMem,uMem]
  · rw [xCsrs .sepc (by decide),vCsrs .sepc (by decide),uSepc]
  · rw [xCsrs .sstatus (by decide),vStatus,uMem]
  · rw [xScratch,vMem,uMem]

theorem run_restore_regs {x : State} {base : BitVec 64} (atFrame : x.reg sp = base) (scratch : x.csrs .sscratch = word x.mem base 16) :
    ∃ y, run restore_regs x = y ∧ (∀ r : Fin 32, r ≠ 0 → y.reg r = word x.mem base (8*r)) ∧ y.csrs .sepc = x.csrs .sepc ∧
      y.csrs .sstatus = x.csrs .sstatus ∧ y.csrs .sscratch = base+BitVec.ofInt 64 288 ∧ y.mem = x.mem := by
  have nonzero : sp ≠ 0 := by decide
  have spared : ∀ p ∈ restoreSlots, p.1 ≠ sp ∧ p.1 ≠ 0 := by decide
  obtain ⟨csrs,mem,regs⟩ := run_loads spared (by decide) x
  obtain ⟨w,load⟩ : ∃ w, run (loads sp restoreSlots) x = w := ⟨_,rfl⟩
  rw [load] at csrs mem regs
  have wSp : w.reg sp = base := by
    rw [regs sp,restoreSlots_find,if_pos (by decide)]
    exact atFrame
  have move : exec w (.addi sp sp 288) = w.setReg sp (base+BitVec.ofInt 64 288) := by
    rw [← wSp]
    rfl
  have swap : ∀ u : State, exec u (.csrrw sp .sscratch sp) = (u.setCsr .sscratch (u.reg sp)).setReg sp (u.csrs .sscratch) := fun _ => rfl
  refine ⟨_,rfl,?_⟩
  unfold restore_regs
  rw [run_append,load,run_cons,run_cons,run_nil,move,swap,reg_setReg_self nonzero,csrs_setReg,csrs,scratch]
  refine ⟨fun r used => ?_,?_,?_,?_,?_⟩
  · by_cases stack : r = sp
    · rw [stack,reg_setReg_self nonzero]
      rfl
    · rw [reg_setReg_of_ne stack,reg_setCsr,reg_setReg_of_ne stack,regs r,restoreSlots_find,if_neg]
      · dsimp only
        rw [atFrame]
      · simp only [List.mem_cons,List.not_mem_nil,or_false,not_or]
        exact ⟨used,stack⟩
  · rw [csrs_setReg,csrs_setCsr_of_ne (by decide),csrs_setReg,csrs]
  · rw [csrs_setReg,csrs_setCsr_of_ne (by decide),csrs_setReg,csrs]
  · rw [csrs_setReg,csrs_setCsr_self]
  · rw [mem_setReg,mem_setCsr,mem_setReg,mem]

theorem leave_reaches {z : State} {base : BitVec 64} (atFrame : z.reg sp = base) :
    ∃ x, Reaches listing (leaving,z) ([.sret],x) ∧ Restored z base x := by
  obtain ⟨x,first,xSp,xMem,xSepc,xStatus,xScratch⟩ := run_restore_csrs atFrame
  rw [← xMem] at xScratch
  obtain ⟨y,second,yRegs,ySepc,yStatus,yScratch,yMem⟩ := run_restore_regs xSp xScratch
  have whole : run (restore_csrs ++ restore_regs) z = y := by
    rw [run_append,first,second]
  refine ⟨y,?_,?_,by rw [ySepc,xSepc],by rw [yStatus,xStatus],yScratch,by rw [yMem,xMem]⟩
  · rw [← whole]
    exact reaches_run listing (restore_csrs ++ restore_regs) _ z
  · intro r used
    rw [yRegs r used,xMem]

/-! ### There and back -/

/-- The trap frame at an address, with the layout of `TrapFrame`. -/
def frameAt (m : Mem) (base : BitVec 64) : TrapFrame where
  regs i := word m base (8*i)
  sstatus := word m base 256
  sepc := word m base 264
  scause := word m base 272
  stval := word m base 280

/-- The user program at a trap. -/
def contextOf (s : State) : Context := { regs := s.regs, pc := s.csrs .sepc, sstatus := s.csrs .sstatus }

theorem Called.frame {s x : State} {base : BitVec 64} (called : Called s base x) :
    frameAt x.mem base = frame_of (contextOf s) (s.csrs .scause) (s.csrs .stval) := by
  have regs : (fun i : Fin 32 => word x.mem base (8*i)) = Function.update s.regs 0 0 := by
    funext i
    rw [called.regs i]
    by_cases first : i = 0
    · rw [first,Function.update_self]
      rfl
    · rw [Function.update_of_ne first]
      exact if_neg first
  unfold frameAt frame_of contextOf
  rw [regs,called.sstatus,called.sepc,called.scause,called.stval]

theorem below_frame (ksp : BitVec 64) : ksp+BitVec.ofInt 64 (-288)+BitVec.ofInt 64 288 = ksp := by
  rw [BitVec.add_assoc,show BitVec.ofInt 64 (-288)+BitVec.ofInt 64 288 = 0 by decide]
  exact BitVec.add_zero ksp

/-- `trap_entry` and `trap_exit_restore` are inverse on the user context, for every register file, every value of the
    CSRs and every kernel stack pointer that is not zero: the frame that is written is the user's, `sscratch` is zero
    at the call of the handler, and a handler that returns with its stack pointer and the frame as they were leads
    back to the user's registers, `sepc` and `sstatus`, but for the result and the program counter of an `ecall`. -/
theorem trap_entry_exit_inverse (s : State) (user : s.csrs .sscratch ≠ 0) :
    ∃ base x, base = s.csrs .sscratch+BitVec.ofInt 64 (-288) ∧
      Reaches listing (listing,s) (.call .trap_handler :: returning,x) ∧
      frameAt x.mem base = frame_of (contextOf s) (s.csrs .scause) (s.csrs .stval) ∧ (∀ b, Outside base b → x.mem b = s.mem b) ∧
      x.reg sp = base ∧ x.csrs .sscratch = 0 ∧
      ∀ y, y.reg sp = x.reg sp → (∀ i, i < 36 → word y.mem base (8*i) = word x.mem base (8*i)) →
        ∃ z, Reaches listing (returning,y) ([.sret],z) ∧
          (∀ r, r ≠ zero → z.reg r = if r = a0 ∧ s.csrs .scause = 8 then y.reg a0 else s.reg r) ∧
          z.csrs .sepc = (if s.csrs .scause = 8 then s.csrs .sepc+4 else s.csrs .sepc) ∧ z.csrs .sstatus = s.csrs .sstatus ∧
          z.csrs .sscratch = s.csrs .sscratch := by
  obtain ⟨x,entry,called⟩ := entry_reaches s user
  refine ⟨_,x,rfl,entry,called.frame,called.outside,called.sp,called.scratch,fun y atFrame frame => ?_⟩
  obtain ⟨z,back,zSp,zMem⟩ := return_reaches (atFrame.trans called.sp)
  obtain ⟨e,leave,restored⟩ := leave_reaches zSp
  generalize place : s.csrs .sscratch+BitVec.ofInt 64 (-288) = base at *
  have cause : word y.mem base 272 = s.csrs .scause := (frame 34 (by decide)).trans called.scause
  have sepc : word y.mem base 264 = s.csrs .sepc := (frame 33 (by decide)).trans called.sepc
  have sstatus : word y.mem base 256 = s.csrs .sstatus := (frame 32 (by decide)).trans called.sstatus
  refine ⟨e,back.trans leave,fun r used => ?_,?_,?_,?_⟩
  · rw [restored.regs r used,zMem,word_answered _ _ _ (by omega) (by omega),cause,frame r (by omega),called.regs r,if_neg (show 8*r.val ≠ 264 by omega)]
    by_cases call : s.csrs .scause = 8
    · rw [if_pos call]
      by_cases result : r = a0
      · rw [if_pos (by rw [result]; rfl),if_pos ⟨result,call⟩]
      · rw [if_neg,if_neg fun both => result both.1]
        intro same
        exact result (Fin.ext (show r.val = 10 by omega))
    · rw [if_neg call,if_neg fun both => call both.2]
  · rw [restored.sepc,zMem,word_answered _ _ _ (by decide) (by decide),cause,sepc]
    by_cases call : s.csrs .scause = 8
    · rw [if_pos call,if_pos call,if_pos rfl]
    · rw [if_neg call,if_neg call]
  · rw [restored.sstatus,zMem,word_answered _ _ _ (by decide) (by decide),sstatus,if_neg (show 256 ≠ 264 by decide),
      if_neg (show 256 ≠ 80 by decide),ite_self]
  · rw [restored.scratch,← place,below_frame]

/-- A user program that has called the kernel with every register different. -/
def ecallState : State where
  regs r := BitVec.ofNat 64 (100+r.val)
  csrs
    | .sscratch => 0x80210000
    | .sstatus => 0x20
    | .sepc => 0x10040
    | .scause => 8
    | .stval => 0
  mem := fun _ => 0

/-- A handler that does nothing at all leads back behind the `ecall`. -/
theorem trap_entry_exit_inverse_ecall :
    ∃ x z, Reaches listing (listing,ecallState) (.call .trap_handler :: returning,x) ∧ Reaches listing (returning,x) ([.sret],z) ∧
      z.reg t0 = 105 ∧ z.reg sp = 102 ∧ z.csrs .sepc = 0x10044 ∧ z.csrs .sscratch = 0x80210000 := by
  obtain ⟨base,x,_,entry,_,_,_,_,handled⟩ := trap_entry_exit_inverse ecallState (by decide)
  obtain ⟨z,back,regs,sepc,_,scratch⟩ := handled x rfl fun _ _ => rfl
  refine ⟨x,z,entry,back,?_,?_,sepc,scratch⟩
  · rw [regs t0 (by decide),if_neg (by decide)]
    rfl
  · rw [regs sp (by decide),if_neg (by decide)]
    rfl

/-! ### The machine's own account -/

/-- Two memories with the same frame and the same bytes around it. -/
theorem frame_ext {m m' : Mem} {a : Nat} (frame : TrapFrame.image m a = TrapFrame.image m' a)
    (outside : ∀ b, b < a ∨ a+288 ≤ b → m b = m' b) : m = m' := by
  have words : ∀ i, i < 36 → load64 m (a+8*i) = load64 m' (a+8*i) := by
    intro i small
    by_cases low : i < 32
    · exact congrFun (congrArg TrapFrame.regs frame) ⟨i,low⟩
    · have last : i = 32 ∨ i = 33 ∨ i = 34 ∨ i = 35 := by omega
      rcases last with rfl | rfl | rfl | rfl
      · exact congrArg TrapFrame.sstatus frame
      · exact congrArg TrapFrame.sepc frame
      · exact congrArg TrapFrame.scause frame
      · exact congrArg TrapFrame.stval frame
  funext b
  by_cases inside : b < a ∨ a+288 ≤ b
  · exact outside b inside
  · have place : b = a+8*((b-a)/8)+(b-a)%8 := by omega
    rw [place,← byte_of_load m _ (by omega),← byte_of_load m' _ (by omega),words _ (by omega)]

section
variable {a : Nat} (fits : a+288 ≤ 2^64)
include fits

theorem base_offset {o : Nat} (small : o < 288) : (BitVec.ofNat 64 a+BitVec.ofNat 64 o).toNat = a+o := by
  rw [BitVec.toNat_add,BitVec.toNat_ofNat,BitVec.toNat_ofNat]
  omega

theorem frameAt_image (m : Mem) : frameAt m (BitVec.ofNat 64 a) = TrapFrame.image m a := by
  have words : ∀ o, o < 288 → word m (BitVec.ofNat 64 a) o = load64 m (a+o) := fun o small => by
    rw [word,base_offset fits small]
  have regs : (fun i : Fin 32 => word m (BitVec.ofNat 64 a) (8*i)) = fun i : Fin 32 => load64 m (a+8*i) := by
    funext i
    exact words _ (by omega)
  unfold frameAt TrapFrame.image
  rw [regs,words 256 (by decide),words 264 (by decide),words 272 (by decide),words 280 (by decide)]

theorem answered_return (k : Kernel) (result : Nat) :
    answered k.mm.mem (BitVec.ofNat 64 a) (BitVec.ofNat 64 result) = (trap_return a result k).mm.mem := by
  unfold answered trap_return setWord word
  rw [base_offset fits (by decide),base_offset fits (by decide),base_offset fits (by decide)]
  by_cases call : load64 k.mm.mem (a+272) = 8
  · rw [if_pos call,if_pos call]
    dsimp only
    rw [load64_store64_off (a := a+80) (b := a+264) (by omega)]
  · rw [if_neg call,if_neg call]

theorem outside_iff {b : Nat} (off : b < a ∨ a+288 ≤ b) : Outside (BitVec.ofNat 64 a) b := by
  intro i small
  rw [Away,base_offset fits (by omega)]
  omega

end

/-- What the machine says about a trap is what the listing does: the memory that `trap_handler` finds, and the memory
    and the registers that the user program gets back. -/
theorem listing_refines_trap (s : State) (k : Kernel) (memory : s.mem = k.mm.mem)
    (scratch : s.csrs .sscratch = BitVec.ofNat 64 k.hart.sscratch) (low : TrapFrame.SIZE ≤ k.hart.sscratch)
    (high : k.hart.sscratch < 2^64) :
    ∃ x, Reaches listing (listing,s) (.call .trap_handler :: returning,x) ∧
      x.mem = (Machine.trap_entry (contextOf s) (s.csrs .scause) (s.csrs .stval) k).mm.mem ∧
      ∀ y (k' : Kernel) (result : Nat), y.reg sp = x.reg sp → y.mem = k'.mm.mem → y.reg a0 = BitVec.ofNat 64 result →
        ∃ z, Reaches listing (returning,y) ([.sret],z) ∧
          let left := Machine.trap_exit_restore (k.hart.sscratch-TrapFrame.SIZE)
            (trap_return (k.hart.sscratch-TrapFrame.SIZE) result k')
          z.mem = left.mm.mem ∧ z.reg = left.hart.regs ∧ z.csrs .sepc = left.hart.sepc ∧ z.csrs .sstatus = left.hart.sstatus ∧
            z.csrs .sscratch = BitVec.ofNat 64 left.hart.sscratch := by
  have size : TrapFrame.SIZE = 288 := rfl
  have user : s.csrs .sscratch ≠ 0 := by
    rw [scratch]
    intro zero
    have := congrArg BitVec.toNat zero
    rw [BitVec.toNat_ofNat,Nat.mod_eq_of_lt high] at this
    simp at this
    omega
  have base : s.csrs .sscratch+BitVec.ofInt 64 (-288) = BitVec.ofNat 64 (k.hart.sscratch-288) := by
    rw [scratch]
    refine BitVec.eq_of_toNat_eq ?_
    rw [BitVec.toNat_add,BitVec.toNat_ofNat,BitVec.toNat_ofNat,show (BitVec.ofInt 64 (-288)).toNat = 2^64-288 by decide]
    omega
  obtain ⟨x,entry,called⟩ := entry_reaches s user
  rw [base] at called
  have fits : k.hart.sscratch-288+288 ≤ 2^64 := by omega
  refine ⟨x,entry,?_,?_⟩
  · refine frame_ext (a := k.hart.sscratch-288) ?_ fun b off => ?_
    · rw [← frameAt_image fits,called.frame]
      exact (image_words _ _ _).symm
    · rw [called.outside b (outside_iff fits off),memory]
      exact (storeWords_off off).symm
  · intro y k' result atFrame memory' answer'
    obtain ⟨z,back,zSp,zMem⟩ := return_reaches (atFrame.trans called.sp)
    obtain ⟨e,leave,restored⟩ := leave_reaches zSp
    have returned : z.mem = (trap_return (k.hart.sscratch-TrapFrame.SIZE) result k').mm.mem := by
      rw [zMem,answer',memory']
      exact answered_return fits k' result
    have image := frameAt_image fits z.mem
    refine ⟨e,back.trans leave,?_,?_,?_,?_,?_⟩
    · rw [restored.mem,returned]
      rfl
    · funext r
      show e.reg r = Function.update (TrapFrame.image (trap_return _ result k').mm.mem _).regs 0 0 r
      by_cases used : r = 0
      · rw [used,Function.update_self]
        rfl
      · rw [Function.update_of_ne used,← returned,restored.regs r used]
        exact congrFun (congrArg TrapFrame.regs image) r
    · rw [restored.sepc]
      show _ = (TrapFrame.image (trap_return _ result k').mm.mem _).sepc
      rw [← returned]
      exact congrArg TrapFrame.sepc image
    · rw [restored.sstatus]
      show _ = (TrapFrame.image (trap_return _ result k').mm.mem _).sstatus
      rw [← returned]
      exact congrArg TrapFrame.sstatus image
    · rw [restored.scratch,← base,below_frame,scratch]
      show _ = BitVec.ofNat 64 (k.hart.sscratch-288+288)
      rw [Nat.sub_add_cancel (show 288 ≤ k.hart.sscratch from low)]

end Unit00.TrapEntry
