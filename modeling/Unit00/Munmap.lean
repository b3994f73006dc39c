import Unit00.Maps
import Unit00.Areas

/-!
`sys_munmap` on any table of areas and any well-formed page table. The areas
may overlap and need not be whole pages: what is counted is how many of them
cover an address. The table of areas loses the range pointwise, and the page
table loses the user leaves of the range.
-/
namespace Unit00.Munmap
open Unit00.Memory Unit00.Execution Unit00.Frame Unit00.Paging Unit00.Paging.PTEntry Unit00.Trees Unit00.Ownership Unit00.View
open Unit00.Task Unit00.Scheduler Unit00.Space Unit00.Syscall Unit00.Steps Unit00.Maps Unit00.Areas

/-! ### Counting areas -/

/-- The number of areas with a property. -/
def tally (p : MmapArea → Bool) (areas : Areas) : Nat := (Finset.univ.filter fun i => p (areas i) = true).card

/-- A used area with these attributes that covers an address. -/
def cover (a prot flags : Nat) (area : MmapArea) : Bool :=
  area.used && area.prot = prot && area.flags = flags && area.start ≤ a && a < area.area_end

theorem cover_congr {a prot flags : Nat} {area part : MmapArea} (used : part.used = area.used) (sameProt : part.prot = area.prot)
    (sameFlags : part.flags = area.flags) (same : part.start ≤ a ∧ a < part.area_end ↔ area.start ≤ a ∧ a < area.area_end) :
    cover a prot flags part = cover a prot flags area := by
  rw [Bool.eq_iff_iff]
  simp only [cover,used,sameProt,sameFlags,Bool.and_eq_true,decide_eq_true_eq,and_assoc,same]

/-- A used area that reaches beyond a range on both sides. -/
def contains (start stop : Nat) (area : MmapArea) : Bool := area.used && area.start < start && stop < area.area_end

def unused (area : MmapArea) : Bool := !area.used

section
variable {areas : Areas} {i : Fin MAX_MMAP_AREAS} {area : MmapArea}

/-- One entry replaced by another. -/
theorem tally_put (p : MmapArea → Bool) (areas : Areas) (i : Fin MAX_MMAP_AREAS) (area : MmapArea) :
    tally p (Function.update areas i area)+(if p (areas i) then 1 else 0) = tally p areas+(if p area then 1 else 0) := by
  have rest : ∑ j ∈ Finset.univ.erase i, (if p (Function.update areas i area j) = true then 1 else 0) =
      ∑ j ∈ Finset.univ.erase i, if p (areas j) = true then 1 else 0 := by
    refine Finset.sum_congr rfl fun j inside => ?_
    rw [Function.update_of_ne (Finset.ne_of_mem_erase inside)]
  unfold tally
  rw [Finset.card_filter,Finset.card_filter,← Finset.sum_erase_add Finset.univ _ (Finset.mem_univ i),
    ← Finset.sum_erase_add Finset.univ (fun j => if p (areas j) = true then 1 else 0) (Finset.mem_univ i),rest,
    Function.update_self]
  omega

theorem countP_tally (p : MmapArea → Bool) (areas : Areas) :
    ((List.finRange MAX_MMAP_AREAS).countP fun i => p (areas i)) = tally p areas := by
  unfold tally
  rw [List.countP_eq_length_filter,← List.toFinset_card_of_nodup ((List.nodup_finRange _).filter _)]
  congr 1
  ext i
  simp

theorem tally_zero {p : MmapArea → Bool} (none : ∀ i, p (areas i) = false) : tally p areas = 0 := by
  unfold tally
  rw [Finset.card_eq_zero,Finset.filter_eq_empty_iff]
  intro i _
  simp [none i]

theorem find_free_of_tally (room : 1 ≤ tally unused areas) : ∃ slot, find_free_mmap_slot areas = some slot := by
  rw [← countP_tally] at room
  obtain ⟨i,inside,free⟩ := List.countP_pos_iff.mp room
  exact Option.isSome_iff_exists.mp (List.find?_isSome.mpr ⟨i,inside,free⟩)

/-- The check before a range is unmapped: there are enough slots for the areas that fall into two. -/
theorem can_split_iff {start stop : Nat} (order : start < stop) :
    can_split_mmap_range areas start stop = true ↔ tally (contains start stop) areas ≤ tally unused areas := by
  have same : ∀ i, (blocking areas start stop i && decide ((areas i).start < start) && decide (stop < (areas i).area_end)) =
      contains start stop (areas i) := by
    intro i
    unfold contains blocking ranges_overlap
    cases (areas i).used
    · simp
    · rw [Bool.eq_iff_iff]
      simp only [Bool.true_and,Bool.and_eq_true,decide_eq_true_eq]
      omega
  have free : ((List.finRange MAX_MMAP_AREAS).countP fun i => !(areas i).used) = tally unused areas := countP_tally unused areas
  unfold can_split_mmap_range
  simp only [same]
  rw [countP_tally (contains start stop),free,decide_eq_true_eq]

end

/-! ### Removing a range from the areas -/

/-- The removal with the slots `rest` to come: the addresses outside the range are covered as before, the slots that
    were visited are apart from it, and there are slots for the areas that are still to be split. -/
structure Removed (start stop : Nat) (areas0 : Areas) (rest : List (Fin MAX_MMAP_AREAS)) (areas : Areas) : Prop where
  covered : ∀ a prot flags, ¬ (start ≤ a ∧ a < stop) → tally (cover a prot flags) areas = tally (cover a prot flags) areas0
  clear : ∀ j, j ∉ rest → (areas j).used = true → Apart start stop (areas j).start (areas j).area_end
  nonempty : (∀ j, (areas0 j).used = true → 0 < (areas0 j).len) → ∀ j, (areas j).used = true → 0 < (areas j).len
  budget : (rest.countP fun j => contains start stop (areas j)) ≤ tally unused areas

section
variable {start stop : Nat} {areas0 areas : Areas} {i : Fin MAX_MMAP_AREAS} {rest : List (Fin MAX_MMAP_AREAS)}

/-- A slot with nothing in the range. -/
theorem Removed.skip (now : Removed start stop areas0 (i :: rest) areas)
    (clear : (areas i).used = true → Apart start stop (areas i).start (areas i).area_end) :
    Removed start stop areas0 rest areas := by
  refine ⟨now.covered,?_,now.nonempty,?_⟩
  · intro j visited used
    by_cases here : j = i
    · subst here
      exact clear used
    · exact now.clear j (by simp [here,visited]) used
  · exact Nat.le_trans (by rw [List.countP_cons]; omega) now.budget

/-- An area of which one part or nothing is left. -/
theorem Removed.trim (now : Removed start stop areas0 (i :: rest) areas) (fresh : i ∉ rest) (used : (areas i).used = true)
    {part : MmapArea} (outside : ∀ a prot flags, ¬ (start ≤ a ∧ a < stop) → cover a prot flags part = cover a prot flags (areas i))
    (clear : part.used = true → Apart start stop part.start part.area_end) (nonempty : part.used = true → 0 < part.len) :
    Removed start stop areas0 rest (Function.update areas i part) := by
  have others : ∀ j, j ∈ rest → Function.update areas i part j = areas j := by
    intro j inside
    refine Function.update_of_ne ?_ _ _
    rintro rfl
    exact fresh inside
  refine ⟨?_,?_,?_,?_⟩
  · intro a prot flags off
    have counted := tally_put (cover a prot flags) areas i part
    rw [outside a prot flags off] at counted
    rw [← now.covered a prot flags off]
    omega
  · intro j visited here
    by_cases same : j = i
    · subst same
      rw [Function.update_self] at here ⊢
      exact clear here
    · rw [Function.update_of_ne same] at here ⊢
      exact now.clear j (by simp [same,visited]) here
  · intro before j here
    by_cases same : j = i
    · subst same
      rw [Function.update_self] at here ⊢
      exact nonempty here
    · rw [Function.update_of_ne same] at here ⊢
      exact now.nonempty before j here
  · have counted := tally_put unused areas i part
    rw [show unused (areas i) = false by simp [unused,used],if_neg (by simp)] at counted
    have same : (rest.countP fun j => contains start stop (Function.update areas i part j)) =
        rest.countP fun j => contains start stop (areas j) := by
      refine List.countP_congr fun j inside => ?_
      rw [others j inside]
    have budget := now.budget
    rw [List.countP_cons] at budget
    rw [same]
    omega

/-- An area that falls into two parts, with a slot found for the second. -/
theorem Removed.split (now : Removed start stop areas0 (i :: rest) areas) (fresh : i ∉ rest) (order : start < stop)
    (used : (areas i).used = true) (low : (areas i).start < start) (high : stop < (areas i).area_end) {head tail : MmapArea}
    (head_eq : head = { areas i with len := start-(areas i).start })
    (tail_eq : tail = { start := stop, len := (areas i).area_end-stop, prot := (areas i).prot, flags := (areas i).flags, used := true }) :
    ∃ slot, find_free_mmap_slot (Function.update areas i head) = some slot ∧
      Removed start stop areas0 rest (Function.update (Function.update areas i head) slot tail) := by
  have headUsed : head.used = true := by rw [head_eq]; exact used
  have headEnd : head.area_end = start := by
    rw [head_eq]
    show (areas i).start+(start-(areas i).start) = start
    omega
  have headStart : head.start = (areas i).start := by rw [head_eq]
  have tailUsed : tail.used = true := by rw [tail_eq]
  have tailStart : tail.start = stop := by rw [tail_eq]
  have tailEnd : tail.area_end = (areas i).area_end := by
    rw [tail_eq]
    show stop+((areas i).area_end-stop) = (areas i).area_end
    omega
  have splits : contains start stop (areas i) = true := by simp [contains,used,low,high]
  have budget := now.budget
  rw [List.countP_cons,if_pos splits] at budget
  have shorter := tally_put unused areas i head
  rw [show unused (areas i) = false by simp [unused,used],show unused head = false by simp [unused,headUsed]] at shorter
  have spare : 1 ≤ tally unused (Function.update areas i head) := by
    simp at shorter
    omega
  obtain ⟨slot,found⟩ := find_free_of_tally spare
  have free := find_free_mmap_slot_some found
  have other : slot ≠ i := by
    rintro rfl
    rw [Function.update_self,headUsed] at free
    exact absurd free (by simp)
  have slotFree : (areas slot).used = false := by
    rw [Function.update_of_ne other] at free
    exact free
  have at_head : Function.update (Function.update areas i head) slot tail i = head := by
    rw [Function.update_of_ne other.symm,Function.update_self]
  have at_else : ∀ j, j ≠ i → j ≠ slot → Function.update (Function.update areas i head) slot tail j = areas j := by
    intro j first second
    rw [Function.update_of_ne second,Function.update_of_ne first]
  have apartHead : Apart start stop head.start head.area_end := apart_iff.mpr (.inr (by rw [headEnd]))
  have apartTail : Apart start stop tail.start tail.area_end := apart_iff.mpr (.inl (by rw [tailStart]))
  refine ⟨slot,found,?_,?_,?_,?_⟩
  · intro a prot flags off
    have first := tally_put (cover a prot flags) areas i head
    have second := tally_put (cover a prot flags) (Function.update areas i head) slot tail
    rw [show cover a prot flags (Function.update areas i head slot) = false by simp [cover,free]] at second
    have parts : (if cover a prot flags head = true then 1 else 0)+(if cover a prot flags tail = true then 1 else 0) =
        if cover a prot flags (areas i) = true then 1 else 0 := by
      have attributes : head.prot = (areas i).prot ∧ head.flags = (areas i).flags ∧ tail.prot = (areas i).prot ∧
          tail.flags = (areas i).flags := by
        rw [head_eq,tail_eq]
        exact ⟨rfl,rfl,rfl,rfl⟩
      obtain ⟨hp,hf,tp,tf⟩ := attributes
      simp only [cover,headUsed,tailUsed,used,hp,hf,tp,tf,headStart,headEnd,tailStart,tailEnd,Bool.true_and,
        Bool.and_eq_true,decide_eq_true_eq]
      by_cases kind : (areas i).prot = prot ∧ (areas i).flags = flags
      · simp only [kind,true_and]
        split <;> split <;> split <;> omega
      · simp only [kind,false_and,if_false]
    rw [← now.covered a prot flags off]
    simp at second
    omega
  · intro j visited here
    by_cases first : j = i
    · subst first
      rw [at_head]
      exact apartHead
    · by_cases second : j = slot
      · subst second
        rw [Function.update_self]
        exact apartTail
      · rw [at_else j first second] at here ⊢
        exact now.clear j (by simp [first,visited]) here
  · intro before j here
    by_cases first : j = i
    · subst first
      rw [at_head,head_eq]
      show 0 < start-(areas j).start
      omega
    · by_cases second : j = slot
      · subst second
        rw [Function.update_self,tail_eq]
        show 0 < (areas i).area_end-stop
        omega
      · rw [at_else j first second] at here ⊢
        exact now.nonempty before j here
  · have filled := tally_put unused (Function.update areas i head) slot tail
    rw [show unused (Function.update areas i head slot) = true by simp [unused,free],
      show unused tail = false by simp [unused,tailUsed]] at filled
    have same : (rest.countP fun j => contains start stop (Function.update (Function.update areas i head) slot tail j)) =
        rest.countP fun j => contains start stop (areas j) := by
      refine List.countP_congr fun j inside => ?_
      have first : j ≠ i := by
        rintro rfl
        exact fresh inside
      by_cases second : j = slot
      · subst second
        rw [Function.update_self]
        simp [contains,tailStart,slotFree]
        omega
      · rw [at_else j first second]
    rw [same]
    simp at filled shorter
    omega

/-- One round. -/
theorem Removed.round (now : Removed start stop areas0 (i :: rest) areas) (fresh : i ∉ rest) (order : start < stop) :
    ∃ areas', remove_mmap_area start stop areas i = .ok areas' ∧ Removed start stop areas0 rest areas' := by
  unfold remove_mmap_area
  dsimp only
  by_cases idle : (!(areas i).used || !ranges_overlap start stop (areas i).start (areas i).area_end) = true
  · rw [if_pos idle]
    refine ⟨areas,rfl,now.skip fun used => ?_⟩
    simpa [used,Apart] using idle
  rw [if_neg idle]
  have used : (areas i).used = true := by
    cases flag : (areas i).used
    · simp [flag] at idle
    · rfl
  have overlap : start < (areas i).area_end ∧ (areas i).start < stop := by
    simpa [used,ranges_overlap] using idle
  have last : (areas i).area_end = (areas i).start+(areas i).len := rfl
  by_cases whole : (decide (start ≤ (areas i).start) && decide (stop ≥ (areas i).area_end)) = true
  · rw [if_pos whole]
    simp only [Bool.and_eq_true,decide_eq_true_eq] at whole
    refine ⟨_,rfl,now.trim fresh used ?_ (fun no => by simp [MmapArea.EMPTY] at no) fun no => by simp [MmapArea.EMPTY] at no⟩
    intro a prot flags off
    rw [Bool.eq_iff_iff]
    simp only [cover,MmapArea.EMPTY,Bool.false_and,Bool.false_eq_true,false_iff,Bool.and_eq_true,decide_eq_true_eq]
    omega
  rw [if_neg whole]
  simp only [Bool.and_eq_true,decide_eq_true_eq,not_and] at whole
  by_cases before : start ≤ (areas i).start
  · have after := whole before
    rw [if_pos before]
    refine ⟨_,rfl,now.trim fresh used ?_ (fun _ => apart_iff.mpr (.inl (Nat.le_refl _))) fun _ => ?_⟩
    · intro a prot flags off
      refine cover_congr rfl rfl rfl ?_
      simp only [MmapArea.area_end] at last after ⊢
      omega
    · show 0 < (areas i).area_end-stop
      omega
  rw [if_neg before]
  by_cases beyond : stop ≥ (areas i).area_end
  · rw [if_pos beyond]
    refine ⟨_,rfl,now.trim fresh used ?_ (fun _ => apart_iff.mpr (.inr ?_)) fun _ => ?_⟩
    · intro a prot flags off
      refine cover_congr rfl rfl rfl ?_
      simp only [MmapArea.area_end] at overlap beyond ⊢
      omega
    · show (areas i).start+(start-(areas i).start) ≤ start
      omega
    · show 0 < start-(areas i).start
      omega
  rw [if_neg beyond]
  obtain ⟨slot,found,next⟩ := now.split fresh order used (by omega) (by omega) rfl rfl
  rw [found]
  exact ⟨_,rfl,next⟩

/-- The rounds of a list of slots. -/
theorem Removed.rounds (now : Removed start stop areas0 rest areas) (nodup : rest.Nodup) (order : start < stop) :
    ∃ areas', rest.foldlM (remove_mmap_area start stop) areas = .ok areas' ∧ Removed start stop areas0 [] areas' := by
  induction rest generalizing areas with
  | nil => exact ⟨areas,rfl,now⟩
  | cons i rest ih =>
    obtain ⟨areas1,run,next⟩ := now.round (List.nodup_cons.mp nodup).1 order
    obtain ⟨areas2,rounds,final⟩ := ih next (List.nodup_cons.mp nodup).2
    refine ⟨areas2,?_,final⟩
    rw [List.foldlM_cons,run]
    exact rounds

/-- Where the check passes the removal runs to its end, whatever the areas are, and takes the range out of the table
    address by address. -/
theorem remove_mmap_range_pointwise (order : start < stop) (room : tally (contains start stop) areas ≤ tally unused areas) :
    ∃ areas', remove_mmap_range areas start stop = .ok areas' ∧
      (∀ a prot flags, tally (cover a prot flags) areas' =
        if start ≤ a ∧ a < stop then 0 else tally (cover a prot flags) areas) ∧
      ((∀ i, (areas i).used = true → 0 < (areas i).len) → ∀ i, (areas' i).used = true → 0 < (areas' i).len) := by
  have begin : Removed start stop areas (List.finRange MAX_MMAP_AREAS) areas := by
    refine ⟨fun _ _ _ _ => rfl,fun j visited => absurd (List.mem_finRange j) visited,fun before => before,?_⟩
    rw [countP_tally (contains start stop)]
    exact room
  obtain ⟨areas',run,final⟩ := begin.rounds (List.nodup_finRange _) order
  refine ⟨areas',run,?_,final.nonempty⟩
  intro a prot flags
  by_cases inside : start ≤ a ∧ a < stop
  · rw [if_pos inside]
    refine tally_zero fun i => ?_
    cases used : (areas' i).used with
    | false => simp [cover,used]
    | true =>
      have apart := apart_iff.mp (final.clear i (by simp) used)
      rw [Bool.eq_false_iff]
      intro covers
      simp only [cover,used,Bool.true_and,Bool.and_eq_true,decide_eq_true_eq] at covers
      omega
  · rw [if_neg inside]
    exact final.covered a prot flags inside

end

/-! ### Dropping references -/

/-- The memory after a reference was dropped: a frame whose last reference it was holds the link of the free list. -/
def dropped (m : Mm) (f : Nat) : Mem := if (refsOf m f).toNat = 1 then store64 m.mem f m.free_list_head else m.mem

theorem run_free_frame {f : Nat} (low : RAM_BASE ≤ f) (high : f < RAM_END) (m : Mm) :
    (free_frame f).run m = .ok ⟨⟩ { m with
      mem := store64 m.mem f m.free_list_head
      frame_refs := Function.update m.frame_refs ((f-RAM_BASE)/4096) 0
      free_list_head := BitVec.ofNat 64 f } := by
  unfold free_frame
  rw [run_seq (EStateM.run_get _)]
  dsimp only
  rw [run_seq (run_write _ _ _),run_seq (EStateM.run_modify _ _),run_seq (run_frame_index low high _),run_set_ref]

theorem run_dec_ref {m : Mm} {f : Nat} (low : RAM_BASE ≤ f) (high : f < RAM_END) (counted : 1 ≤ (refsOf m f).toNat) :
    ∃ c m', (dec_ref f).run m = .ok c m' ∧ m'.mem = dropped m f ∧
      m'.frame_refs = Function.update m.frame_refs ((f-RAM_BASE)/4096) (BitVec.ofNat 32 ((refsOf m f).toNat-1)) := by
  have small : (refsOf m f).toNat < 2^32 := (m.frame_refs ((f-RAM_BASE)/4096)).isLt
  have word : m.frame_refs ((f-RAM_BASE)/4096) = BitVec.ofNat 32 (refsOf m f).toNat := by simp [refsOf]
  have less : BitVec.ofNat 32 (refsOf m f).toNat-1 = BitVec.ofNat 32 ((refsOf m f).toNat-1) := by
    have number : (1 : BitVec 32).toNat = 1 := rfl
    apply BitVec.eq_of_toNat_eq
    simp only [BitVec.toNat_sub,BitVec.toNat_ofNat,number]
    omega
  have one : BitVec.ofNat 32 (refsOf m f).toNat = 1 ↔ (refsOf m f).toNat = 1 := ofNat32_eq small (by decide)
  have zero : ¬ BitVec.ofNat 32 (refsOf m f).toNat = 0 := by
    rw [show (0 : BitVec 32) = BitVec.ofNat 32 0 from rfl,ofNat32_eq small (by decide)]
    omega
  unfold dec_ref dropped
  rw [run_seq (run_frame_index low high m),run_seq (EStateM.run_get _),run_seq (run_set_ref _ _ _)]
  dsimp only
  rw [word,less]
  by_cases last : (refsOf m f).toNat = 1
  · rw [if_pos (one.mpr last),if_pos last,run_seq (run_free_frame low high _),if_neg zero]
    refine ⟨_,_,rfl,rfl,?_⟩
    dsimp only
    rw [last,Function.update_idem]
    rfl
  · rw [if_neg (one.not.mpr last),if_neg zero,if_neg last]
    exact ⟨_,_,rfl,rfl,rfl⟩

/-! ### Unmapping pages -/

/-- The user pages that map a frame. -/
def mappedBy (t : Tree) (f : Nat) : Set Nat :=
  { n | n < 2^27 ∧ is_valid (t.leaf n) = true ∧ is_u (t.leaf n) = true ∧ ppn_to_addr (t.leaf n) = f }

/-- A well-formed table whose user leaves map managed frames with at least as many references as leaves map them; a
    frame that is also one of the tables has one more. -/
structure Counted (m : Mm) (r : Nat) (t : Tree) : Prop where
  formed : WellFormed m.mem r t
  managed : ∀ f, (mappedBy t f).Nonempty → is_managed f = true
  enough : ∀ f, (mappedBy t f).ncard ≤ (refsOf m f).toNat
  tables : ∀ f, InTree r t f → (mappedBy t f).Nonempty → (mappedBy t f).ncard < (refsOf m f).toNat

theorem mappedBy_finite (t : Tree) (f : Nat) : (mappedBy t f).Finite :=
  (Set.finite_lt_nat (2^27)).subset fun _ inside => inside.1

theorem mappedBy_aligned {t : Tree} {f : Nat} (some' : (mappedBy t f).Nonempty) : f%4096 = 0 := by
  obtain ⟨n,_,_,_,rfl⟩ := some'
  exact ppn_to_addr_mod _

theorem is_managed_iff {f : Nat} : is_managed f = true ↔ RAM_BASE ≤ f ∧ f < RAM_END := by
  have total : RAM_BASE+RAM_SIZE = RAM_END := rfl
  simp [is_managed,total]

theorem mappedBy_clear (t : Tree) (n f : Nat) :
    mappedBy { t with leaf := Function.update t.leaf n 0 } f = mappedBy t f \ {n} := by
  ext k
  by_cases here : k = n
  · subst here
    have invalid : is_valid 0#64 = false := is_valid_zero
    simp [mappedBy,invalid]
  · simp [mappedBy,here]

theorem mappedBy_less {t : Tree} {n : Nat} (f : Nat) (inside : n < 2^27) (valid : is_valid (t.leaf n) = true)
    (user : is_u (t.leaf n) = true) :
    (mappedBy t f \ {n}).ncard+(if f = ppn_to_addr (t.leaf n) then 1 else 0) = (mappedBy t f).ncard := by
  by_cases same : f = ppn_to_addr (t.leaf n)
  · rw [if_pos same]
    exact Set.ncard_sdiff_singleton_add_one ⟨inside,valid,user,same.symm⟩ (mappedBy_finite t f)
  · rw [if_neg same,Set.sdiff_singleton_eq_self fun here => same here.2.2.2.symm,Nat.add_zero]

section
variable {m : Mm} {pt : PageTable} {t : Tree}

/-- A page without a user leaf. -/
theorem unmap_user_page_idle (formed : WellFormed m.mem pt.root t) {n : Nat} (inside : n < 2^27)
    (absent : (is_valid (t.leaf n) && is_u (t.leaf n)) = false) : (unmap_user_page pt (n*4096)).run m = .ok ⟨⟩ m := by
  unfold unmap_user_page
  rw [run_seq (lookup_eq pt formed.tree _),pageOf_page inside]
  cases slot : leafSlot t n with
  | none => rfl
  | some entry =>
    obtain ⟨b,table,rfl⟩ := Option.map_eq_some_iff.mp slot
    dsimp only
    rw [run_seq (run_read _ _),formed.tree.low n b inside table,absent]
    rfl

theorem refsOf_update {m' : Mm} {f c : Nat} (small : c < 2^32) (low : RAM_BASE ≤ f) (aligned : f%4096 = 0)
    (refs : m'.frame_refs = Function.update m.frame_refs ((f-RAM_BASE)/4096) (BitVec.ofNat 32 c)) {h : Nat} (lowH : RAM_BASE ≤ h)
    (alignedH : h%4096 = 0) : (refsOf m' h).toNat = if h = f then c else (refsOf m h).toNat := by
  unfold refsOf
  rw [refs]
  by_cases same : h = f
  · subst same
    rw [if_pos rfl,Function.update_self,BitVec.toNat_ofNat,Nat.mod_eq_of_lt small]
  · rw [if_neg same,Function.update_of_ne]
    exact fun equal => same (index_injective alignedH aligned lowH low equal)

/-- A page with a user leaf loses it, and its frame a reference. -/
theorem unmap_user_page_counted (counted : Counted m pt.root t) {n : Nat} (inside : n < 2^27)
    (valid : is_valid (t.leaf n) = true) (user : is_u (t.leaf n) = true) :
    ∃ m', (unmap_user_page pt (n*4096)).run m = .ok ⟨⟩ m' ∧
      Counted m' pt.root { t with leaf := Function.update t.leaf n 0 } ∧
      ∀ h, RAM_BASE ≤ h → h%4096 = 0 → (refsOf m' h).toNat+(if h = ppn_to_addr (t.leaf n) then 1 else 0) = (refsOf m h).toNat := by
  have here : n ∈ mappedBy t (ppn_to_addr (t.leaf n)) := ⟨inside,valid,user,rfl⟩
  obtain ⟨low,high⟩ := is_managed_iff.mp (counted.managed _ ⟨n,here⟩)
  have aligned := ppn_to_addr_mod (t.leaf n)
  have several : 1 ≤ (mappedBy t (ppn_to_addr (t.leaf n))).ncard := (Set.ncard_pos (mappedBy_finite _ _)).mpr ⟨n,here⟩
  have positive := Nat.le_trans several (counted.enough _)
  obtain ⟨b,table⟩ := counted.formed.tree.leaf_table inside valid
  obtain ⟨c,m1,run,mem,refs⟩ := run_dec_ref low high positive
  have formed : WellFormed m1.mem pt.root t := by
    rw [mem,dropped]
    split
    next last =>
      have outside : ¬ InTree pt.root t (ppn_to_addr (t.leaf n)) := by
        intro inTree
        have := counted.tables _ inTree ⟨n,here⟩
        omega
      have change := confined_store64 m.mem (o := 0) m.free_list_head aligned (by decide)
      rw [Nat.add_zero] at change
      exact counted.formed.away change (by rintro f inTree rfl; exact outside inTree)
    next => exact counted.formed
  have counts : ∀ h, RAM_BASE ≤ h → h%4096 = 0 →
      (refsOf m1 h).toNat+(if h = ppn_to_addr (t.leaf n) then 1 else 0) = (refsOf m h).toNat := by
    intro h lowH alignedH
    have small : (refsOf m (ppn_to_addr (t.leaf n))).toNat < 2^32 := (m.frame_refs _).isLt
    rw [refsOf_update (by omega) low aligned refs lowH alignedH]
    split
    next same => rw [same]; omega
    next => omega
  refine ⟨{ m1 with mem := store64 m1.mem (entry_at b (n%512)) 0 },?_,⟨formed.set inside table 0,?_,?_,?_⟩,counts⟩
  · unfold unmap_user_page
    rw [run_seq (lookup_eq pt counted.formed.tree _),pageOf_page inside]
    unfold leafSlot
    rw [table]
    dsimp only [Option.map_some]
    rw [run_seq (run_read _ _),counted.formed.tree.low n b inside table,valid,user,Bool.and_self,if_pos rfl,run_seq run]
    rfl
  · intro f some'
    rw [mappedBy_clear] at some'
    exact counted.managed f (some'.mono Set.sdiff_subset)
  · intro f
    rw [mappedBy_clear]
    by_cases mapped : (mappedBy t f).Nonempty
    · have less := mappedBy_less f inside valid user
      have fewer := counts f (is_managed_iff.mp (counted.managed f mapped)).1 (mappedBy_aligned mapped)
      have enough := counted.enough f
      show (mappedBy t f \ {n}).ncard ≤ (refsOf m1 f).toNat
      omega
    · rw [Set.not_nonempty_iff_eq_empty.mp mapped,Set.empty_sdiff,Set.ncard_empty]
      exact Nat.zero_le _
  · intro f inTree some'
    rw [mappedBy_clear] at some' ⊢
    have mapped := some'.mono Set.sdiff_subset
    have less := mappedBy_less f inside valid user
    have fewer := counts f (is_managed_iff.mp (counted.managed f mapped)).1 (mappedBy_aligned mapped)
    have enough := counted.tables f inTree mapped
    show (mappedBy t f \ {n}).ncard < (refsOf m1 f).toNat
    omega

/-- The leaves after the user leaves of the pages from `lo` to `hi` are gone. -/
def without (t : Tree) (lo hi : Nat) : Tree :=
  { t with leaf := fun n => if lo ≤ n ∧ n < hi ∧ is_valid (t.leaf n) = true ∧ is_u (t.leaf n) = true then 0 else t.leaf n }

theorem without_empty (t : Tree) (lo : Nat) : without t lo lo = t := by
  have leaf : (fun n => if lo ≤ n ∧ n < lo ∧ is_valid (t.leaf n) = true ∧ is_u (t.leaf n) = true then 0 else t.leaf n) = t.leaf := by
    funext n
    rw [if_neg (by omega)]
  unfold without
  rw [leaf]

theorem without_cleared (t : Tree) {lo hi : Nat} (more : lo < hi) (here : is_valid (t.leaf lo) = true ∧ is_u (t.leaf lo) = true) :
    without { t with leaf := Function.update t.leaf lo 0 } (lo+1) hi = without t lo hi := by
  refine congrArg (fun leaf => { t with leaf := leaf : Tree }) (funext fun n => ?_)
  by_cases first : n = lo
  · subst first
    rw [if_neg (by omega),if_pos ⟨Nat.le_refl _,more,here⟩]
    exact Function.update_self n (0 : PTEntry) t.leaf
  · have leaf : Function.update t.leaf lo 0 n = t.leaf n := Function.update_of_ne first 0 t.leaf
    have same : lo+1 ≤ n ↔ lo ≤ n := by omega
    simp only [leaf,same]

theorem without_skipped (t : Tree) (lo hi : Nat) (absent : ¬ (is_valid (t.leaf lo) = true ∧ is_u (t.leaf lo) = true)) :
    without t (lo+1) hi = without t lo hi := by
  refine congrArg (fun leaf => { t with leaf := leaf : Tree }) (funext fun n => ?_)
  by_cases first : n = lo
  · subst first
    rw [if_neg (by omega),if_neg fun all => absent all.2.2]
  · have same : lo+1 ≤ n ↔ lo ≤ n := by omega
    simp only [same]

/-- The pages of a range that map a frame, but for the first. -/
theorem range_cleared (t : Tree) (f lo hi : Nat) :
    mappedBy { t with leaf := Function.update t.leaf lo 0 } f ∩ Set.Ico (lo+1) hi = mappedBy t f ∩ Set.Ico (lo+1) hi := by
  rw [mappedBy_clear]
  ext k
  simp only [Set.mem_inter_iff,Set.mem_sdiff,Set.mem_singleton_iff,Set.mem_Ico]
  constructor
  · rintro ⟨⟨here,_⟩,range⟩
    exact ⟨here,range⟩
  · rintro ⟨here,range⟩
    exact ⟨⟨here,by omega⟩,range⟩

theorem range_first {t : Tree} {f lo hi : Nat} (more : lo < hi) (here : lo ∈ mappedBy t f) :
    (mappedBy t f ∩ Set.Ico lo hi).ncard = (mappedBy t f ∩ Set.Ico (lo+1) hi).ncard+1 := by
  have split : mappedBy t f ∩ Set.Ico lo hi = insert lo (mappedBy t f ∩ Set.Ico (lo+1) hi) := by
    ext k
    simp only [Set.mem_inter_iff,Set.mem_insert_iff,Set.mem_Ico]
    constructor
    · rintro ⟨inside,range⟩
      by_cases first : k = lo
      · exact .inl first
      · exact .inr ⟨inside,by omega⟩
    · rintro (rfl | ⟨inside,range⟩)
      · exact ⟨here,by omega⟩
      · exact ⟨inside,by omega⟩
  rw [split,Set.ncard_insert_of_notMem (by simp) ((mappedBy_finite t f).subset Set.inter_subset_left)]

theorem range_other {t : Tree} {f lo hi : Nat} (absent : lo ∉ mappedBy t f) :
    mappedBy t f ∩ Set.Ico lo hi = mappedBy t f ∩ Set.Ico (lo+1) hi := by
  ext k
  simp only [Set.mem_inter_iff,Set.mem_Ico]
  constructor
  · rintro ⟨inside,range⟩
    have first : k ≠ lo := by
      rintro rfl
      exact absent inside
    exact ⟨inside,by omega⟩
  · rintro ⟨inside,range⟩
    exact ⟨inside,by omega⟩

/-- `unmap_user_pages` takes the user leaves of its range out of the table, with one reference for each. -/
theorem unmap_user_pages_counted (counted : Counted m pt.root t) {lo hi : Nat} (order : lo ≤ hi) (bound : hi ≤ 2^27) :
    ∃ m', (unmap_user_pages pt (lo*4096) (hi*4096)).run m = .ok ⟨⟩ m' ∧ Counted m' pt.root (without t lo hi) ∧
      ∀ f, RAM_BASE ≤ f → f%4096 = 0 → (refsOf m' f).toNat+(mappedBy t f ∩ Set.Ico lo hi).ncard = (refsOf m f).toNat := by
  -- induction on the number of pages still to come
  obtain ⟨count,rfl⟩ := Nat.exists_eq_add_of_le order
  induction count generalizing lo m t with
  | zero =>
    refine ⟨m,?_,?_,fun f _ _ => by simp⟩
    · unfold unmap_user_pages
      rw [dif_neg (by omega)]
      rfl
    · rw [Nat.add_zero,without_empty]
      exact counted
  | succ count ih =>
    have inside : lo < 2^27 := by omega
    have next : lo*4096+4096 = (lo+1)*4096 := by omega
    have stop : lo+(count+1) = lo+1+count := by omega
    unfold unmap_user_pages
    rw [dif_pos (by omega),next,stop]
    by_cases here : is_valid (t.leaf lo) = true ∧ is_u (t.leaf lo) = true
    · obtain ⟨m1,first,counted1,refs1⟩ := unmap_user_page_counted counted inside here.1 here.2
      obtain ⟨m2,rest,counted2,refs2⟩ := ih counted1 (show lo+1 ≤ lo+1+count by omega) (by omega)
      refine ⟨m2,by rw [run_seq first]; exact rest,?_,?_⟩
      · rw [← without_cleared t (by omega) here]
        exact counted2
      · intro f low aligned
        have dropped1 := refs1 f low aligned
        have dropped2 := refs2 f low aligned
        rw [range_cleared] at dropped2
        by_cases same : f = ppn_to_addr (t.leaf lo)
        · rw [if_pos same] at dropped1
          rw [range_first (by omega) ⟨inside,here.1,here.2,same.symm⟩]
          omega
        · rw [if_neg same] at dropped1
          rw [range_other fun mapped => same mapped.2.2.2.symm]
          omega
    · have absent : (is_valid (t.leaf lo) && is_u (t.leaf lo)) = false := by
        rw [Bool.eq_false_iff]
        simpa using here
      obtain ⟨m2,rest,counted2,refs2⟩ := ih counted (show lo+1 ≤ lo+1+count by omega) (by omega)
      refine ⟨m2,by rw [run_seq (unmap_user_page_idle counted.formed inside absent)]; exact rest,?_,?_⟩
      · rw [← without_skipped t _ _ here]
        exact counted2
      · intro f low aligned
        rw [range_other fun mapped => here ⟨mapped.2.1,mapped.2.2.1⟩]
        exact refs2 f low aligned

theorem userLeaf_tree (tree : TreeAt false m.mem pt.root t) (va : Nat) :
    userLeaf m pt va ≠ none ↔ is_valid (t.leaf (pageOf va)) = true ∧ is_u (t.leaf (pageOf va)) = true := by
  unfold userLeaf
  rw [entryOf_tree tree]
  cases slot : leafSlot t (pageOf va) with
  | none =>
    rw [tree.low_none _ (pageOf_lt va) (Option.map_eq_none_iff.mp slot)]
    have invalid : is_valid 0#64 = false := is_valid_zero
    simp [invalid]
  | some entry => simp [Option.filter_some]

/-- The leaves that are left. -/
theorem leafAt_without {m' : Mm} (tree : TreeAt false m.mem pt.root t) {lo hi : Nat}
    (tree' : TreeAt false m'.mem pt.root (without t lo hi)) (va : Nat) :
    leafAt m' pt va =
      if lo ≤ pageOf va ∧ pageOf va < hi ∧ (userLeaf m pt va).isSome then none else leafAt m pt va := by
  have user : (userLeaf m pt va).isSome ↔ is_valid (t.leaf (pageOf va)) = true ∧ is_u (t.leaf (pageOf va)) = true := by
    rw [← userLeaf_tree tree,Option.isSome_iff_ne_none]
  by_cases here : lo ≤ pageOf va ∧ pageOf va < hi ∧ (userLeaf m pt va).isSome
  · have leaf : (without t lo hi).leaf (pageOf va) = 0 := if_pos ⟨here.1,here.2.1,user.mp here.2.2⟩
    rw [if_pos here,leafAt_tree tree',leaf]
    rfl
  · rw [if_neg here]
    refine leafAt_congr tree' tree (if_neg ?_)
    rintro ⟨low,high,both⟩
    exact here ⟨low,high,user.mpr both⟩

end

/-! ### The call -/

/-- The end of the range, rounded up to whole pages. -/
def munmapEnd (addr len : Nat) : Nat := addr+(len+4095)/4096*4096

/-- What a call that returns 0 has done: the areas have lost the range address by address, every user leaf in the range
    is gone and every other leaf as it was, and each frame has lost one reference for each leaf in the range that
    mapped it. Nothing else of the kernel's state but memory has changed. -/
structure Unmapped (k : Kernel) (me : Process) (t : Tree) (addr stop : Nat) (k' : Kernel) (areas : Areas) : Prop where
  rest : k' = { k with mm := k'.mm, process_list := Function.update k.process_list k.current (some { me with mmap_areas := areas }) }
  covered : ∀ a prot flags, tally (cover a prot flags) areas =
    if addr ≤ a ∧ a < stop then 0 else tally (cover a prot flags) me.mmap_areas
  nonempty : (∀ i, (me.mmap_areas i).used = true → 0 < (me.mmap_areas i).len) → ∀ i, (areas i).used = true → 0 < (areas i).len
  leaves : ∀ va, leafAt k'.mm me.page_table va =
    if addr/4096 ≤ pageOf va ∧ pageOf va < stop/4096 ∧ (userLeaf k.mm me.page_table va).isSome then none
    else leafAt k.mm me.page_table va
  refs : ∀ f, is_managed f = true → f%4096 = 0 →
    (refsOf k'.mm f).toNat+(mappedBy t f ∩ Set.Ico (addr/4096) (stop/4096)).ncard = (refsOf k.mm f).toNat

section
variable {k : Kernel} {me : Process} {t : Tree}

/-- The part after the arguments are checked. -/
theorem munmap_range_pointwise (running : k.process_list k.current = some me) (counted : Counted k.mm me.page_table.root t)
    {addr stop : Nat} (aligned : addr%4096 = 0) (whole : stop%4096 = 0) (order : addr < stop) (bound : stop ≤ 2^39) :
    (tally unused me.mmap_areas < tally (contains addr stop) me.mmap_areas ∧
      (munmap_range addr stop).run k = .ok (linux_error ENOMEM) k) ∨
    ∃ k' areas, (munmap_range addr stop).run k = .ok 0 k' ∧ Unmapped k me t addr stop k' areas := by
  unfold munmap_range
  rw [run_seq (run_current running)]
  cases split : can_split_mmap_range me.mmap_areas addr stop with
  | false =>
    refine .inl ⟨?_,rfl⟩
    have refused : ¬ can_split_mmap_range me.mmap_areas addr stop = true := by simp [split]
    have excess := (can_split_iff order).not.mp refused
    omega
  | true =>
    obtain ⟨areas,removed,covered,nonempty⟩ := remove_mmap_range_pointwise order ((can_split_iff order).mp split)
    obtain ⟨m',cleared,counted',refs⟩ := @unmap_user_pages_counted k.mm me.page_table t counted _ _
      (show addr/4096 ≤ stop/4096 by omega) (by omega)
    rw [show addr/4096*4096 = addr by omega,show stop/4096*4096 = stop by omega] at cleared
    refine .inr ⟨{ k with
      mm := m'
      process_list := Function.update k.process_list k.current (some { me with mmap_areas := areas }) },areas,?_,?_⟩
    · rw [if_neg (by simp),run_seq (onMm_ok cleared),removed]
      have stays : ({ k with mm := m' } : Kernel).process_list ({ k with mm := m' } : Kernel).current = some me := running
      rw [run_seq (show (lift (.ok areas : Except Panic Areas)).run { k with mm := m' } = .ok areas { k with mm := m' } from rfl),
        run_seq (run_update_current stays _)]
      rfl
    · refine ⟨rfl,covered,nonempty,leafAt_without counted.formed.tree counted'.formed.tree,fun f managed alignedF => ?_⟩
      exact refs f (is_managed_iff.mp managed).1 alignedF

/-- `sys_munmap` takes exactly its range out of the areas and the page table of the caller: for every area table and
    every well-formed page table with enough references, it never panics, an error leaves everything as it was, and it
    fails for lack of slots only where more areas reach beyond the range on both sides than there are free slots. -/
theorem munmap_pointwise (running : k.process_list k.current = some me) (counted : Counted k.mm me.page_table.root t)
    (addr len : Nat) :
    ∃ r k', (sys_munmap addr len).run k = .ok r k' ∧ (r = 0 ∨ r = linux_error EINVAL ∨ r = linux_error ENOMEM) ∧
      (r ≠ 0 → k' = k) ∧
      (r = linux_error ENOMEM → tally unused me.mmap_areas < tally (contains addr (munmapEnd addr len)) me.mmap_areas) ∧
      (r = 0 → ∃ areas, Unmapped k me t addr (munmapEnd addr len) k' areas) := by
  have zero : linux_error EINVAL ≠ 0 := by decide
  have zero' : linux_error ENOMEM ≠ 0 := by decide
  have apart : linux_error EINVAL ≠ linux_error ENOMEM := by decide
  have invalid : ∀ {x : K Nat}, x.run k = .ok (linux_error EINVAL) k →
      ∃ r k', x.run k = .ok r k' ∧ (r = 0 ∨ r = linux_error EINVAL ∨ r = linux_error ENOMEM) ∧ (r ≠ 0 → k' = k) ∧
        (r = linux_error ENOMEM → tally unused me.mmap_areas < tally (contains addr (munmapEnd addr len)) me.mmap_areas) ∧
        (r = 0 → ∃ areas, Unmapped k me t addr (munmapEnd addr len) k' areas) :=
    fun run => ⟨_,k,run,.inr (.inl rfl),fun _ => rfl,fun same => absurd same apart,fun same => absurd same zero⟩
  unfold sys_munmap
  by_cases unaligned : addr &&& (PAGE_SIZE-1) ≠ 0
  · rw [if_pos unaligned]
    exact invalid rfl
  rw [if_neg unaligned]
  have aligned : addr%4096 = 0 := by
    rw [not_not] at unaligned
    rw [← unaligned]
    exact (Nat.and_two_pow_sub_one_eq_mod addr 12).symm
  cases rounded : checked_align_up len with
  | none => exact invalid rfl
  | some whole =>
    have wholeEq : whole = (len+4095)/4096*4096 := by
      unfold checked_align_up at rounded
      obtain ⟨sum,added,rfl⟩ := Option.map_eq_some_iff.mp rounded
      rw [← (checked_add_some added).1]
      rfl
    dsimp only
    by_cases empty : whole = 0
    · rw [if_pos empty]
      exact invalid rfl
    rw [if_neg empty]
    cases added : checked_add addr whole with
    | none => exact invalid rfl
    | some stop =>
      have sum : stop = munmapEnd addr len := by
        rw [← (checked_add_some added).1,wholeEq]
        rfl
      dsimp only
      by_cases outside : addr < USER_MMAP_START ∨ stop > USER_MMAP_LIMIT
      · rw [if_pos outside]
        exact invalid rfl
      rw [if_neg outside]
      have limit : USER_MMAP_LIMIT = 0x3f000000 := rfl
      have spec := munmap_range_pointwise running counted aligned (show stop%4096 = 0 by rw [sum,munmapEnd]; omega)
        (by rw [sum,munmapEnd]; omega) (by omega)
      rw [sum] at spec ⊢
      rcases spec with ⟨excess,run⟩ | ⟨k',areas,run,unmapped⟩
      · exact ⟨_,k,run,.inr (.inr rfl),fun _ => rfl,fun _ => excess,fun same => absurd same zero'⟩
      · exact ⟨0,k',run,.inl rfl,fun no => absurd rfl no,fun same => absurd same.symm zero',fun _ => ⟨areas,unmapped⟩⟩

end

/-- A leaf at the first page of the mmap region. -/
def sharedLeaf : PTEntry := new_leaf 0x80005000 (PTEFlags.new true true false true)

/-- A process with two areas over the same four pages, and a leaf for the first of them. -/
def overlapping : Process where
  pid := 1
  parent_pid := 0
  state := .Running
  page_table := blankTable
  trap_frame := { regs := fun _ => 0, sstatus := 0, sepc := 0, scause := 0, stval := 0 }
  kernel_sp := 0x80210000
  kernel_stack_frame := 0x80208000
  heap_start := USER_HEAP_START
  heap_end := USER_HEAP_START
  mmap_areas := fun i => if i.val < 2 then { start := USER_MMAP_START, len := 0x4000, prot := 3, flags := 0x22, used := true } else .EMPTY

def overlappingKernel : Kernel where
  mm := { single (USER_MMAP_START/4096) sharedLeaf with frame_refs := fun _ => 1 }
  process_list := Function.update (fun _ => none) 0 (some overlapping)
  current := 0
  next_pid := 2
  tick_count := 0
  input := fun _ => 0
  output := []
  hart := ⟨fun _ => 0,0,0,0x80210000,blankTable.satp_val,true⟩

theorem overlapping_mappedBy (f : Nat) :
    mappedBy (singleTree (USER_MMAP_START/4096) sharedLeaf) f ⊆ {USER_MMAP_START/4096} ∧
    ((mappedBy (singleTree (USER_MMAP_START/4096) sharedLeaf) f).Nonempty → f = 0x80005000) := by
  have only : ∀ {n}, n ∈ mappedBy (singleTree (USER_MMAP_START/4096) sharedLeaf) f → n = USER_MMAP_START/4096 := by
    rintro n ⟨_,valid,_,_⟩
    by_contra other
    have zero : (singleTree (USER_MMAP_START/4096) sharedLeaf).leaf n = 0 := by simp [singleTree,other]
    rw [zero] at valid
    exact absurd valid (by decide)
  refine ⟨fun n here => only here,?_⟩
  rintro ⟨n,here⟩
  have names := here.2.2.2
  rw [only here] at names
  rw [← names]
  decide +kernel

theorem overlapping_counted :
    Counted overlappingKernel.mm overlapping.page_table.root (singleTree (USER_MMAP_START/4096) sharedLeaf) := by
  have refs : ∀ f, (refsOf overlappingKernel.mm f).toNat = 1 := fun _ => rfl
  refine ⟨single_formed (by decide) _,?_,?_,?_⟩
  · intro f mapped
    rw [(overlapping_mappedBy f).2 mapped]
    decide
  · intro f
    rw [refs f,← Set.ncard_singleton (USER_MMAP_START/4096)]
    exact Set.ncard_le_ncard (overlapping_mappedBy f).1 (Set.finite_singleton _)
  · intro f inTree mapped
    rw [(overlapping_mappedBy f).2 mapped] at inTree
    rcases inTree with same | ⟨v,_,table⟩ | ⟨i,_,table⟩
    · exact absurd same (by decide)
    · by_cases here : v = USER_MMAP_START/4096/512/512
      · simp [singleTree,here] at table
        exact absurd table (by decide)
      · simp [singleTree,here] at table
    · by_cases here : i = USER_MMAP_START/4096/512
      · simp [singleTree,here] at table
        exact absurd table (by decide)
      · simp [singleTree,here] at table

/-- Unmapping the two middle pages takes them out of both areas and leaves the first page covered twice. -/
theorem munmap_pointwise_overlapping :
    ∃ k' areas, (sys_munmap (USER_MMAP_START+0x1000) 0x2000).run overlappingKernel = .ok 0 k' ∧
      tally (cover (USER_MMAP_START+0x1fff) 3 0x22) areas = 0 ∧ tally (cover USER_MMAP_START 3 0x22) areas = 2 := by
  obtain ⟨r,k',run,_,_,_,done⟩ :=
    munmap_pointwise (k := overlappingKernel) rfl overlapping_counted (USER_MMAP_START+0x1000) 0x2000
  have zero : r = 0 := by
    have value : (sys_munmap (USER_MMAP_START+0x1000) 0x2000).run' overlappingKernel = some 0 := by decide +kernel
    unfold EStateM.run' at value
    rw [run] at value
    exact Option.some.inj value
  obtain ⟨areas,unmapped⟩ := done zero
  refine ⟨k',areas,by rw [← zero]; exact run,?_,?_⟩
  · rw [unmapped.covered,if_pos (by decide)]
  · rw [unmapped.covered,if_neg (by decide)]
    decide +kernel

end Unit00.Munmap
