import Unit00.Memory
import Mathlib.Logic.Function.Basic
import Mathlib.Logic.Relation

/-!
Assembly listings for one RISC-V hart: the integer registers, the trap CSRs and
memory, the instructions that trap code is made of, and jumps between labels.
Straight-line code is a fold of its instructions; a listing runs until it
calls out or returns from the trap.
-/
namespace Unit00.Riscv
open Unit00.Memory

/-! ### State -/

abbrev Reg := Fin 32

namespace Reg

def zero : Reg := 0
def ra : Reg := 1
def sp : Reg := 2
def gp : Reg := 3
def tp : Reg := 4
def t0 : Reg := 5
def t1 : Reg := 6
def t2 : Reg := 7
def s0 : Reg := 8
def s1 : Reg := 9
def a0 : Reg := 10
def a1 : Reg := 11
def a2 : Reg := 12
def a3 : Reg := 13
def a4 : Reg := 14
def a5 : Reg := 15
def a6 : Reg := 16
def a7 : Reg := 17
def s2 : Reg := 18
def s3 : Reg := 19
def s4 : Reg := 20
def s5 : Reg := 21
def s6 : Reg := 22
def s7 : Reg := 23
def s8 : Reg := 24
def s9 : Reg := 25
def s10 : Reg := 26
def s11 : Reg := 27
def t3 : Reg := 28
def t4 : Reg := 29
def t5 : Reg := 30
def t6 : Reg := 31

end Reg

inductive Csr
  | sscratch
  | sstatus
  | sepc
  | scause
  | stval
  deriving DecidableEq

structure State where
  regs : Reg → BitVec 64
  csrs : Csr → BitVec 64
  mem : Mem

/-- A register as an instruction reads it. -/
def State.reg (s : State) (r : Reg) : BitVec 64 := if r = 0 then 0 else s.regs r

/-- A register written; x0 stays zero. -/
def State.setReg (s : State) (r : Reg) (v : BitVec 64) : State :=
  if r = 0 then s else { s with regs := Function.update s.regs r v }

def State.setCsr (s : State) (c : Csr) (v : BitVec 64) : State := { s with csrs := Function.update s.csrs c v }

/-- The doubleword at an offset from a base address, which wraps as addresses do. -/
def word (m : Mem) (base : BitVec 64) (offset : Nat) : BitVec 64 := load64 m (base+BitVec.ofNat 64 offset).toNat

def setWord (m : Mem) (base : BitVec 64) (offset : Nat) (v : BitVec 64) : Mem :=
  store64 m (base+BitVec.ofNat 64 offset).toNat v

section
variable (s : State) (r : Reg) (c : Csr) (v : BitVec 64)

@[simp] theorem csrs_setReg : (s.setReg r v).csrs = s.csrs := by
  unfold State.setReg
  split <;> rfl

@[simp] theorem mem_setReg : (s.setReg r v).mem = s.mem := by
  unfold State.setReg
  split <;> rfl

@[simp] theorem reg_setCsr : (s.setCsr c v).reg r = s.reg r := rfl

@[simp] theorem mem_setCsr : (s.setCsr c v).mem = s.mem := rfl

@[simp] theorem csrs_setCsr_self : (s.setCsr c v).csrs c = v := by
  simp [State.setCsr]

@[simp] theorem reg_mem (m : Mem) : ({ s with mem := m } : State).reg r = s.reg r := rfl

@[simp] theorem reg_zero : s.reg 0 = 0 := rfl

variable {s r c v}

theorem csrs_setCsr_of_ne {d : Csr} (other : d ≠ c) : (s.setCsr c v).csrs d = s.csrs d := by
  simp [State.setCsr,other]

theorem reg_setReg_self (nonzero : r ≠ 0) : (s.setReg r v).reg r = v := by
  simp [State.setReg,State.reg,nonzero]

theorem reg_setReg_of_ne {q : Reg} (other : q ≠ r) : (s.setReg r v).reg q = s.reg q := by
  by_cases written : r = 0
  · simp [State.setReg,written]
  · simp [State.setReg,State.reg,written,other]

end

/-! ### Doublewords around a base -/

theorem word_setWord (base : BitVec 64) (m : Mem) {o p : Nat} (small : o < 2^64) (small' : p < 2^64)
    (whole : o%8 = 0) (whole' : p%8 = 0) (v : BitVec 64) :
    word (setWord m base o v) base p = if p = o then v else word m base p := by
  unfold word setWord
  by_cases same : p = o
  · subst same
    rw [if_pos rfl,load64_store64]
  · rw [if_neg same]
    refine load64_store64_off ?_
    simp only [BitVec.toNat_add,BitVec.toNat_ofNat,Nat.mod_eq_of_lt small,Nat.mod_eq_of_lt small']
    have := base.isLt
    omega

/-- A byte away from every doubleword that was written. -/
def Away (base : BitVec 64) (offset : Nat) (b : Nat) : Prop :=
  b < (base+BitVec.ofNat 64 offset).toNat ∨ (base+BitVec.ofNat 64 offset).toNat+8 ≤ b

theorem setWord_away {base : BitVec 64} {m : Mem} {o b : Nat} {v : BitVec 64} (away : Away base o b) : setWord m base o v b = m b :=
  store64_off away

/-! ### Instructions -/

inductive Instr
  | sd (source : Reg) (offset : Nat) (base : Reg)
  | ld (target : Reg) (offset : Nat) (base : Reg)
  | addi (target source : Reg) (immediate : Int)
  | li (target : Reg) (immediate : Int)
  | mv (target source : Reg)
  | csrrw (target : Reg) (csr : Csr) (source : Reg)
  | csrr (target : Reg) (csr : Csr)
  | csrw (csr : Csr) (source : Reg)

def exec (s : State) : Instr → State
  | .sd source offset base => { s with mem := setWord s.mem (s.reg base) offset (s.reg source) }
  | .ld target offset base => s.setReg target (word s.mem (s.reg base) offset)
  | .addi target source immediate => s.setReg target (s.reg source+BitVec.ofInt 64 immediate)
  | .li target immediate => s.setReg target (BitVec.ofInt 64 immediate)
  | .mv target source => s.setReg target (s.reg source)
  | .csrrw target csr source => (s.setCsr csr (s.reg source)).setReg target (s.csrs csr)
  | .csrr target csr => s.setReg target (s.csrs csr)
  | .csrw csr source => s.setCsr csr (s.reg source)

/-- Straight-line code. -/
def run (code : List Instr) (s : State) : State := code.foldl exec s

@[simp] theorem run_nil (s : State) : run [] s = s := rfl

@[simp] theorem run_cons (i : Instr) (code : List Instr) (s : State) : run (i :: code) s = run code (exec s i) := rfl

@[simp] theorem run_append (first second : List Instr) (s : State) : run (first ++ second) s = run second (run first s) :=
  List.foldl_append

/-- Registers stored at offsets from a base register. -/
def saves (base : Reg) (slots : List (Reg × Nat)) : List Instr := slots.map fun p => .sd p.1 p.2 base

/-- Registers loaded from offsets from a base register. -/
def loads (base : Reg) (slots : List (Reg × Nat)) : List Instr := slots.map fun p => .ld p.1 p.2 base

/-- The slots lie apart: no offset twice, each a whole number of doublewords. -/
def Slots (slots : List (Reg × Nat)) : Prop := (slots.map Prod.snd).Nodup ∧ ∀ p ∈ slots, p.2%8 = 0 ∧ p.2 < 2^64

instance (slots : List (Reg × Nat)) : Decidable (Slots slots) := inferInstanceAs (Decidable (_ ∧ _))

/-- The memory after values were stored in slots. -/
def saved (value : Reg → BitVec 64) (base : BitVec 64) (slots : List (Reg × Nat)) (m : Mem) : Mem :=
  slots.foldl (fun m p => setWord m base p.2 (value p.1)) m

theorem run_saves (base : Reg) (slots : List (Reg × Nat)) (s : State) :
    run (saves base slots) s = { s with mem := saved s.reg (s.reg base) slots s.mem } := by
  induction slots generalizing s with
  | nil => rfl
  | cons p slots ih =>
    show run (saves base slots) (exec s (.sd p.1 p.2 base)) = _
    rw [ih]
    rfl

theorem Slots.tail {p : Reg × Nat} {slots : List (Reg × Nat)} (good : Slots (p :: slots)) : Slots slots :=
  ⟨(List.nodup_cons.mp good.1).2,fun q inside => good.2 q (List.mem_cons_of_mem p inside)⟩

/-- What a doubleword holds after registers were stored: the register that was stored there, or what it held. -/
theorem word_saved (value : Reg → BitVec 64) (base : BitVec 64) {slots : List (Reg × Nat)} (good : Slots slots) (m : Mem) {o : Nat}
    (small : o < 2^64) (whole : o%8 = 0) :
    word (saved value base slots m) base o =
      match slots.find? fun p => p.2 = o with
      | some p => value p.1
      | none => word m base o := by
  induction slots generalizing m with
  | nil => rfl
  | cons p slots ih =>
    obtain ⟨whole',small'⟩ := good.2 p List.mem_cons_self
    show word (saved value base slots (setWord m base p.2 (value p.1))) base o = _
    rw [ih good.tail,word_setWord base m small' small whole' whole]
    by_cases here : p.2 = o
    · have fresh : slots.find? (fun q => q.2 = o) = none := by
        rw [List.find?_eq_none]
        intro q inside equal
        refine (List.nodup_cons.mp good.1).1 (List.mem_map.mpr ⟨q,inside,?_⟩)
        rw [here]
        simpa using equal
      rw [fresh,List.find?_cons_of_pos (by simp [here])]
      exact if_pos here.symm
    · rw [List.find?_cons_of_neg (by simp [here]),if_neg fun same => here same.symm]

/-- Bytes away from all the slots stay. -/
theorem saved_away (value : Reg → BitVec 64) (base : BitVec 64) (slots : List (Reg × Nat)) (m : Mem) {b : Nat}
    (away : ∀ p ∈ slots, Away base p.2 b) : saved value base slots m b = m b := by
  induction slots generalizing m with
  | nil => rfl
  | cons p slots ih =>
    show saved value base slots (setWord m base p.2 (value p.1)) b = m b
    rw [ih _ fun q inside => away q (List.mem_cons_of_mem p inside),setWord_away (away p List.mem_cons_self)]

/-- The registers after loads that spare their base register: each target holds its slot. -/
theorem run_loads {base : Reg} {slots : List (Reg × Nat)} (spared : ∀ p ∈ slots, p.1 ≠ base ∧ p.1 ≠ 0)
    (nodup : (slots.map Prod.fst).Nodup) (s : State) :
    (run (loads base slots) s).csrs = s.csrs ∧ (run (loads base slots) s).mem = s.mem ∧
    ∀ r, (run (loads base slots) s).reg r =
      match slots.find? fun p => p.1 = r with
      | some p => word s.mem (s.reg base) p.2
      | none => s.reg r := by
  induction slots generalizing s with
  | nil => exact ⟨rfl,rfl,fun _ => rfl⟩
  | cons p slots ih =>
    obtain ⟨fresh,distinct⟩ := List.nodup_cons.mp nodup
    obtain ⟨other,nonzero⟩ := spared p List.mem_cons_self
    have first : exec s (.ld p.1 p.2 base) = s.setReg p.1 (word s.mem (s.reg base) p.2) := rfl
    obtain ⟨csrs,mem,regs⟩ := ih (fun q inside => spared q (List.mem_cons_of_mem p inside)) distinct
      (s.setReg p.1 (word s.mem (s.reg base) p.2))
    have whole : run (loads base (p :: slots)) s = run (loads base slots) (s.setReg p.1 (word s.mem (s.reg base) p.2)) := rfl
    rw [whole]
    refine ⟨by rw [csrs,csrs_setReg],by rw [mem,mem_setReg],fun r => ?_⟩
    rw [regs r,mem_setReg,reg_setReg_of_ne other.symm]
    by_cases here : p.1 = r
    · have absent : slots.find? (fun q => q.1 = r) = none := by
        rw [List.find?_eq_none]
        intro q inside equal
        refine fresh (List.mem_map.mpr ⟨q,inside,?_⟩)
        rw [here]
        simpa using equal
      rw [absent,List.find?_cons_of_pos (by simp [here]),← here,reg_setReg_self nonzero]
    · rw [List.find?_cons_of_neg (by simp [here])]
      cases slots.find? fun q => q.1 = r with
      | some q => rfl
      | none => exact reg_setReg_of_ne fun same => here same.symm

/-! ### Listings -/

/-- A line of a listing with labels `L`. `bnez` and `bne` jump forward to the next label of the name, `j` to the
    label of the name in the whole listing; `call` leaves the listing. -/
inductive Line (L : Type)
  | label (name : L)
  | instr (i : Instr)
  | bnez (source : Reg) (target : L)
  | bne (first second : Reg) (target : L)
  | j (target : L)
  | call (target : L)
  | sret

section
variable {L : Type} [DecidableEq L]

/-- The listing from a label on. -/
def goto (target : L) : List (Line L) → List (Line L)
  | [] => []
  | .label name :: rest => if name = target then rest else goto target rest
  | _ :: rest => goto target rest

/-- One line of a listing, with what is still to come; nothing after a call or at the return from the trap. -/
def step (listing : List (Line L)) : List (Line L) × State → Option (List (Line L) × State)
  | (.label _ :: rest,s) => some (rest,s)
  | (.instr i :: rest,s) => some (rest,exec s i)
  | (.bnez source target :: rest,s) => some (if s.reg source ≠ 0 then goto target rest else rest,s)
  | (.bne first second target :: rest,s) => some (if s.reg first ≠ s.reg second then goto target rest else rest,s)
  | (.j target :: _,s) => some (goto target listing,s)
  | _ => none

def Reaches (listing : List (Line L)) : List (Line L) × State → List (Line L) × State → Prop :=
  Relation.ReflTransGen fun c d => step listing c = some d

/-- Straight-line code in a listing. -/
theorem reaches_run (listing : List (Line L)) (code : List Instr) (rest : List (Line L)) (s : State) :
    Reaches listing (code.map .instr ++ rest,s) (rest,run code s) := by
  induction code generalizing s with
  | nil => exact .refl
  | cons i code ih => exact .head rfl (ih (exec s i))

end

end Unit00.Riscv
