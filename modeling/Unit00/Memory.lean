import Mathlib.Data.Nat.Basic
import Mathlib.Tactic.Ring
import Mathlib.Tactic.IntervalCases

/-!
Byte-addressed memory with little-endian 64-bit words, as load and store
instructions see it, and the linked lists that a program threads through it.
A region of memory is named by the addresses a change may touch: every
operation says which bytes it leaves alone.
-/
namespace Unit00.Memory

/-- Registers are numbered by `Fin 32`. -/
instance neZero_regs : NeZero 32 := ⟨by decide⟩

/-- Arguments of a system call are numbered by `Fin 6`. -/
instance neZero_args : NeZero 6 := ⟨by decide⟩

/-- One byte for every address. -/
abbrev Mem := Nat → BitVec 8

/-- The little-endian word in the eight bytes from `a`. -/
def load64 (m : Mem) (a : Nat) : BitVec 64 :=
  m (a+7) ++ m (a+6) ++ m (a+5) ++ m (a+4) ++ m (a+3) ++ m (a+2) ++ m (a+1) ++ m a

/-- Store one byte. -/
def store8 (m : Mem) (a : Nat) (v : BitVec 8) : Mem :=
  fun b => if b = a then v else m b

/-- Store a word in the eight bytes from `a`. -/
def store64 (m : Mem) (a : Nat) (v : BitVec 64) : Mem :=
  fun b => if a ≤ b ∧ b < a+8 then v.extractLsb' (8*(b-a)) 8 else m b

/-- Set `n` bytes from `a` to one value. -/
def fill (m : Mem) (a : Nat) (v : BitVec 8) (n : Nat) : Mem :=
  fun b => if a ≤ b ∧ b < a+n then v else m b

/-- Copy `n` bytes; source and destination do not overlap. -/
def copy (m : Mem) (src dst n : Nat) : Mem :=
  fun b => if dst ≤ b ∧ b < dst+n then m (src+(b-dst)) else m b

/-- Store consecutive words from `a` on. -/
def storeWords (m : Mem) (a : Nat) : List (BitVec 64) → Mem
  | [] => m
  | w :: rest => storeWords (store64 m a w) (a+8) rest

/-- A change of memory inside the pages of a set, a page being named by its first address. -/
def Confined (S : Nat → Prop) (m m' : Mem) : Prop := ∀ a, ¬ S (a/4096*4096) → m' a = m a

theorem load64_congr {m m' : Mem} {a : Nat} (same : ∀ b, a ≤ b → b < a+8 → m' b = m b) :
    load64 m' a = load64 m a := by
  unfold load64
  rw [same (a+7) (by omega) (by omega),same (a+6) (by omega) (by omega),same (a+5) (by omega) (by omega),
    same (a+4) (by omega) (by omega),same (a+3) (by omega) (by omega),same (a+2) (by omega) (by omega),
    same (a+1) (by omega) (by omega),same a (by omega) (by omega)]

/-- The eight bytes of a word, put together again. -/
theorem bytes_of_word (v : BitVec 64) :
    v.extractLsb' 56 8 ++ v.extractLsb' 48 8 ++ v.extractLsb' 40 8 ++ v.extractLsb' 32 8 ++
      v.extractLsb' 24 8 ++ v.extractLsb' 16 8 ++ v.extractLsb' 8 8 ++ v.extractLsb' 0 8 = v := by
  apply BitVec.eq_of_getLsbD_eq
  intro i inside
  simp only [BitVec.getLsbD_append,BitVec.getLsbD_extractLsb']
  interval_cases i <;> simp

@[simp] theorem load64_store64 (m : Mem) (a : Nat) (v : BitVec 64) : load64 (store64 m a v) a = v := by
  have byte (k : Nat) (low : k < 8) : store64 m a v (a+k) = v.extractLsb' (8*k) 8 := by
    simp [store64,low]
  unfold load64
  rw [byte 7 (by omega),byte 6 (by omega),byte 5 (by omega),byte 4 (by omega),byte 3 (by omega),
    byte 2 (by omega),byte 1 (by omega)]
  have first := byte 0 (by omega)
  simp only [Nat.add_zero] at first
  rw [first]
  exact bytes_of_word v

theorem store64_off {m : Mem} {a b : Nat} {v : BitVec 64} (off : b < a ∨ a+8 ≤ b) : store64 m a v b = m b := by
  unfold store64
  rw [if_neg (by omega)]

theorem load64_store64_off {m : Mem} {a b : Nat} {v : BitVec 64} (off : b+8 ≤ a ∨ a+8 ≤ b) :
    load64 (store64 m a v) b = load64 m b :=
  load64_congr (fun c low high => store64_off (by omega))

/-- The last store to a word stays. -/
@[simp] theorem store64_store64 (m : Mem) (a : Nat) (v w : BitVec 64) : store64 (store64 m a v) a w = store64 m a w := by
  funext b
  unfold store64
  split
  · rfl
  · rfl

theorem byte_of_load (m : Mem) (a : Nat) {j : Nat} (inside : j < 8) : (load64 m a).extractLsb' (8*j) 8 = m (a+j) := by
  apply BitVec.eq_of_getLsbD_eq
  intro i small
  have which : j = 0 ∨ j = 1 ∨ j = 2 ∨ j = 3 ∨ j = 4 ∨ j = 5 ∨ j = 6 ∨ j = 7 := by omega
  rw [BitVec.getLsbD_extractLsb']
  unfold load64
  simp only [BitVec.getLsbD_append]
  rcases which with rfl | rfl | rfl | rfl | rfl | rfl | rfl | rfl <;>
    simp [small] <;> grind

/-- Storing the word that is there changes nothing. -/
theorem store64_same (m : Mem) (a : Nat) : store64 m a (load64 m a) = m := by
  funext b
  unfold store64
  split
  · rename_i inside
    rw [byte_of_load m a (by omega)]
    congr 1
    omega
  · rfl

theorem fill_off {m : Mem} {a b n : Nat} {v : BitVec 8} (off : b < a ∨ a+n ≤ b) : fill m a v n b = m b := by
  unfold fill
  rw [if_neg (by omega)]

theorem fill_on {m : Mem} {a b n : Nat} {v : BitVec 8} (low : a ≤ b) (high : b < a+n) : fill m a v n b = v := by
  unfold fill
  rw [if_pos ⟨low,high⟩]

theorem load64_fill_zero {m : Mem} {a b n : Nat} (low : a ≤ b) (high : b+8 ≤ a+n) : load64 (fill m a 0 n) b = 0 := by
  unfold load64
  rw [fill_on (by omega) (by omega),fill_on (by omega) (by omega),fill_on (by omega) (by omega),
    fill_on (by omega) (by omega),fill_on (by omega) (by omega),fill_on (by omega) (by omega),
    fill_on (by omega) (by omega),fill_on (by omega) (by omega)]
  rfl

theorem copy_off {m : Mem} {src dst n b : Nat} (off : b < dst ∨ dst+n ≤ b) : copy m src dst n b = m b := by
  unfold copy
  rw [if_neg (by omega)]

theorem copy_on {m : Mem} {src dst n k : Nat} (inside : k < n) : copy m src dst n (dst+k) = m (src+k) := by
  unfold copy
  rw [if_pos (by omega)]
  congr 1
  omega

theorem store8_off {m : Mem} {a b : Nat} {v : BitVec 8} (off : b ≠ a) : store8 m a v b = m b := by
  unfold store8
  rw [if_neg off]

@[simp] theorem store8_on (m : Mem) (a : Nat) (v : BitVec 8) : store8 m a v a = v := by
  simp [store8]

theorem storeWords_off {m : Mem} {a b : Nat} {ws : List (BitVec 64)} (off : b < a ∨ a+8*ws.length ≤ b) :
    storeWords m a ws b = m b := by
  induction ws generalizing m a with
  | nil => rfl
  | cons w rest ih =>
    simp only [List.length_cons] at off
    rw [storeWords,ih (by omega),store64_off (by omega)]

theorem load64_storeWords {m : Mem} {a : Nat} {ws : List (BitVec 64)} {i : Nat} {w : BitVec 64}
    (found : ws[i]? = some w) : load64 (storeWords m a ws) (a+8*i) = w := by
  induction ws generalizing m a i with
  | nil => simp at found
  | cons v rest ih =>
    rw [storeWords]
    cases i with
    | zero =>
      have same : v = w := by simpa using found
      subst same
      rw [load64_congr (m := store64 m a v) (fun b low high => storeWords_off (by omega))]
      simp
    | succ i =>
      have later := ih (m := store64 m a v) (a := a+8) (i := i) (by simpa using found)
      rw [← later]
      congr 1
      omega

/-! ### Changes inside pages -/

theorem Confined.refl (S : Nat → Prop) (m : Mem) : Confined S m m := fun _ _ => rfl

theorem Confined.trans {S : Nat → Prop} {a b c : Mem} (first : Confined S a b) (second : Confined S b c) : Confined S a c :=
  fun x off => (second x off).trans (first x off)

theorem Confined.mono {S T : Nat → Prop} {a b : Mem} (first : Confined S a b) (wider : ∀ p, S p → T p) : Confined T a b :=
  fun x off => first x fun inside => off (wider _ inside)

/-- A word of a page outside the set. -/
theorem Confined.load {S : Nat → Prop} {m m' : Mem} (change : Confined S m m') {p o : Nat} (aligned : p%4096 = 0)
    (inside : o+8 ≤ 4096) (off : ¬ S p) : load64 m' (p+o) = load64 m (p+o) := by
  refine load64_congr fun b low high => change b ?_
  have page : b/4096*4096 = p := by omega
  rwa [page]

theorem Confined.byte {S : Nat → Prop} {m m' : Mem} (change : Confined S m m') {p o : Nat} (aligned : p%4096 = 0)
    (inside : o < 4096) (off : ¬ S p) : m' (p+o) = m (p+o) := by
  refine change _ ?_
  have page : (p+o)/4096*4096 = p := by omega
  rwa [page]

theorem confined_store64 (m : Mem) {p o : Nat} (v : BitVec 64) (aligned : p%4096 = 0) (inside : o+8 ≤ 4096) :
    Confined (· = p) m (store64 m (p+o) v) := by
  intro a off
  refine store64_off ?_
  by_contra near
  apply off
  omega

theorem confined_store8 (m : Mem) (a : Nat) (v : BitVec 8) : Confined (· = a/4096*4096) m (store8 m a v) := by
  intro b off
  refine store8_off ?_
  rintro rfl
  exact off rfl

theorem confined_fill (m : Mem) {p : Nat} (v : BitVec 8) (aligned : p%4096 = 0) : Confined (· = p) m (fill m p v 4096) := by
  intro a off
  refine fill_off ?_
  by_contra near
  apply off
  omega

theorem confined_fill_pages (m : Mem) {p n : Nat} (v : BitVec 8) (aligned : p%4096 = 0) :
    Confined (fun q => p ≤ q ∧ q < p+n*4096) m (fill m p v (n*4096)) := by
  intro a outside
  refine fill_off ?_
  omega

theorem confined_copy (m : Mem) {p : Nat} (src : Nat) (aligned : p%4096 = 0) : Confined (· = p) m (copy m src p 4096) := by
  intro a off
  refine copy_off ?_
  by_contra near
  apply off
  omega

/-- A singly linked list of cells: `head` is the address of the first cell, each
    cell's first word is the address of the next one, and 0 ends the list. -/
inductive Chain (m : Mem) : BitVec 64 → List Nat → Prop
  | nil : Chain m 0 []
  | cons {a : Nat} {rest : List Nat} (bound : a < 2^64) (nonzero : a ≠ 0) (tail : Chain m (load64 m a) rest) :
      Chain m (BitVec.ofNat 64 a) (a :: rest)

/-- A list survives every change outside the first words of its cells. -/
theorem Chain.frame {m m' : Mem} {head : BitVec 64} {cells : List Nat} (chain : Chain m head cells)
    (same : ∀ a ∈ cells, load64 m' a = load64 m a) : Chain m' head cells := by
  induction chain with
  | nil => exact .nil
  | @cons a rest bound nonzero _ ih =>
    refine .cons bound nonzero ?_
    rw [same a (by simp)]
    exact ih (fun b member => same b (by simp [member]))

theorem address_toNat {a : Nat} (bound : a < 2^64) : (BitVec.ofNat 64 a).toNat = a := by
  rw [BitVec.toNat_ofNat]
  exact Nat.mod_eq_of_lt bound

theorem address_nonzero {a : Nat} (bound : a < 2^64) (nonzero : a ≠ 0) : BitVec.ofNat 64 a ≠ 0 := by
  intro zero
  apply nonzero
  rw [← address_toNat bound,zero]
  rfl

theorem Chain.zero {m : Mem} {cells : List Nat} (chain : Chain m 0 cells) : cells = [] := by
  generalize equal : (0 : BitVec 64) = head at chain
  cases chain with
  | nil => rfl
  | @cons a rest bound nonzero _ => exact absurd equal.symm (address_nonzero bound nonzero)

theorem Chain.nonzero {m : Mem} {head : BitVec 64} {cells : List Nat} (chain : Chain m head cells)
    (present : head ≠ 0) : ∃ rest, cells = head.toNat :: rest ∧ Chain m (load64 m head.toNat) rest := by
  cases chain with
  | nil => exact absurd rfl present
  | @cons a rest bound _ tail =>
    rw [address_toNat bound]
    exact ⟨rest,rfl,tail⟩

/-- The cells of the list from `head`, at most `fuel` of them. -/
def cells (m : Mem) : Nat → BitVec 64 → List Nat
  | 0, _ => []
  | fuel+1, head => if head = 0 then [] else head.toNat :: cells m fuel (load64 m head.toNat)

theorem cells_eq {m : Mem} {head : BitVec 64} {list : List Nat} (chain : Chain m head list) (fuel : Nat)
    (enough : list.length ≤ fuel) : cells m fuel head = list := by
  induction chain generalizing fuel with
  | nil => cases fuel <;> simp [cells]
  | @cons a rest bound nonzero _ ih =>
    cases fuel with
    | zero => simp at enough
    | succ fuel =>
      rw [cells,if_neg (address_nonzero bound nonzero),address_toNat bound,ih fuel (by simpa using enough)]

end Unit00.Memory
