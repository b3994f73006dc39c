import Unit00.Space

/-!
The table of mmap areas. In a tidy table the used areas are whole pages inside
the mmap region and pairwise apart. A new mapping goes to a gap between them,
and unmapping a range takes exactly its pages out of the table.
-/
namespace Unit00.Areas
open Unit00.Frame Unit00.Task Unit00.Space

/-- An area of whole pages inside the mmap region. -/
structure Placed (area : MmapArea) : Prop where
  aligned : area.start%4096 = 0
  whole : area.len%4096 = 0
  nonempty : 0 < area.len
  low : USER_MMAP_START ≤ area.start
  high : area.area_end ≤ USER_MMAP_LIMIT

/-- No byte is in both ranges. -/
def Apart (a_start a_end b_start b_end : Nat) : Prop := ranges_overlap a_start a_end b_start b_end = false

theorem apart_iff {a b c d : Nat} : Apart a b c d ↔ b ≤ c ∨ d ≤ a := by
  simp only [Apart,ranges_overlap,Bool.and_eq_false_iff,decide_eq_false_iff_not]
  omega

structure Tidy (areas : Areas) : Prop where
  placed : ∀ i, (areas i).used = true → Placed (areas i)
  apart : ∀ i j, i ≠ j → (areas i).used = true → (areas j).used = true →
    Apart (areas i).start (areas i).area_end (areas j).start (areas j).area_end

/-- A page of an area. -/
def Holds (area : MmapArea) (n prot : Nat) : Prop :=
  area.used = true ∧ area.start/4096 ≤ n ∧ n < area.area_end/4096 ∧ area.prot = prot

/-- A page that is in a used area with a protection. -/
def Covers (areas : Areas) (n prot : Nat) : Prop := ∃ i, Holds (areas i) n prot

theorem tidy_empty : Tidy fun _ => .EMPTY := by
  refine ⟨fun i used => ?_,fun i j _ used => ?_⟩
  · simp [MmapArea.EMPTY] at used
  · simp [MmapArea.EMPTY] at used

theorem covers_empty (n prot : Nat) : ¬ Covers (fun _ => .EMPTY) n prot := by
  rintro ⟨i,used,_⟩
  simp [MmapArea.EMPTY] at used

/-- A page is in one area only. -/
theorem Tidy.unique {areas : Areas} (tidy : Tidy areas) {i j : Fin MAX_MMAP_AREAS} {n p q : Nat} (first : Holds (areas i) n p)
    (second : Holds (areas j) n q) : i = j := by
  by_contra different
  have := apart_iff.mp (tidy.apart i j different first.1 second.1)
  obtain ⟨_,low,high,_⟩ := first
  obtain ⟨_,low',high',_⟩ := second
  omega

/-! ### One slot of the table -/

section
variable {areas : Areas} {i : Fin MAX_MMAP_AREAS} {area : MmapArea}

/-- A slot gets an area that is apart from the others. -/
theorem Tidy.put (tidy : Tidy areas) (placed : area.used = true → Placed area)
    (apart : area.used = true → ∀ j, j ≠ i → (areas j).used = true →
      Apart area.start area.area_end (areas j).start (areas j).area_end) : Tidy (Function.update areas i area) := by
  refine ⟨?_,?_⟩
  · intro j used
    by_cases here : j = i
    · subst here
      rw [Function.update_self] at used ⊢
      exact placed used
    · rw [Function.update_of_ne here] at used ⊢
      exact tidy.placed j used
  · intro j l different usedJ usedL
    by_cases hereJ : j = i
    · subst hereJ
      rw [Function.update_self] at usedJ ⊢
      rw [Function.update_of_ne different.symm] at usedL ⊢
      exact apart usedJ l different.symm usedL
    · rw [Function.update_of_ne hereJ] at usedJ ⊢
      by_cases hereL : l = i
      · subst hereL
        rw [Function.update_self] at usedL ⊢
        have := apart_iff.mp (apart usedL j hereJ usedJ)
        exact apart_iff.mpr (by omega)
      · rw [Function.update_of_ne hereL] at usedL ⊢
        exact tidy.apart j l different usedJ usedL

theorem covers_put {n prot : Nat} :
    Covers (Function.update areas i area) n prot ↔ Holds area n prot ∨ ∃ j, j ≠ i ∧ Holds (areas j) n prot := by
  constructor
  · rintro ⟨j,holds⟩
    by_cases here : j = i
    · subst here
      rw [Function.update_self] at holds
      exact .inl holds
    · rw [Function.update_of_ne here] at holds
      exact .inr ⟨j,here,holds⟩
  · rintro (holds | ⟨j,other,holds⟩)
    · exact ⟨i,by rw [Function.update_self]; exact holds⟩
    · exact ⟨j,by rw [Function.update_of_ne other]; exact holds⟩

/-- A free slot gets a new area. -/
theorem covers_insert {n prot : Nat} (free : (areas i).used = false) :
    Covers (Function.update areas i area) n prot ↔ Holds area n prot ∨ Covers areas n prot := by
  rw [covers_put]
  refine or_congr_right ⟨fun ⟨j,_,holds⟩ => ⟨j,holds⟩,fun ⟨j,holds⟩ => ⟨j,?_,holds⟩⟩
  rintro rfl
  have used := holds.1
  rw [free] at used
  cases used

end

theorem find_free_mmap_slot_some {areas : Areas} {slot : Fin MAX_MMAP_AREAS} (found : find_free_mmap_slot areas = some slot) :
    (areas slot).used = false := by
  simpa using List.find?_some found

/-! ### Choosing an address -/

theorem align_up_mod {addr next : Nat} (run : align_up addr = .ok next) : next%4096 = 0 := by
  unfold align_up at run
  split at run
  · cases run
    simp only [mask_page]
    omega
  · cases run

/-- A range for a new mapping. -/
structure Gap (areas : Areas) (len start : Nat) : Prop where
  aligned : start%4096 = 0
  low : USER_MMAP_START ≤ start
  high : start+len ≤ USER_MMAP_LIMIT
  apart : ∀ i, (areas i).used = true → Apart start (start+len) (areas i).start (areas i).area_end

theorem gap_step_answer {areas : Areas} {len limit candidate start : Nat}
    (step : gap_step areas len limit candidate = .ok (.inl (some start))) :
    start = candidate ∧ start+len ≤ limit ∧
      ∀ i, (areas i).used = true → Apart start (start+len) (areas i).start (areas i).area_end := by
  unfold gap_step at step
  cases added : checked_add candidate len with
  | none => simp [added] at step
  | some stop =>
    have sum := (checked_add_some added).1
    simp only [added] at step
    by_cases beyond : stop > limit
    · simp [beyond] at step
    · simp only [beyond,if_false] at step
      cases found : first_blocking areas candidate stop with
      | some i =>
        simp only [found] at step
        cases moved : align_up (areas i).area_end with
        | error e => simp [moved] at step
        | ok next => simp [moved] at step
      | none =>
        have same : candidate = start := by simpa [found] using step
        subst same
        refine ⟨rfl,by omega,fun i used => ?_⟩
        have clear := List.find?_eq_none.mp found i (List.mem_finRange i)
        rw [sum]
        simpa [blocking,used,Apart] using clear

theorem gap_step_next {areas : Areas} {len limit candidate next : Nat}
    (step : gap_step areas len limit candidate = .ok (.inr next)) : next%4096 = 0 := by
  unfold gap_step at step
  cases added : checked_add candidate len with
  | none => simp [added] at step
  | some stop =>
    simp only [added] at step
    by_cases beyond : stop > limit
    · simp [beyond] at step
    · simp only [beyond,if_false] at step
      cases found : first_blocking areas candidate stop with
      | none => simp [found] at step
      | some i =>
        simp only [found] at step
        cases moved : align_up (areas i).area_end with
        | error e => simp [moved] at step
        | ok after =>
          have same : after = next := by simpa [moved] using step
          rw [← same]
          exact align_up_mod moved

theorem find_mmap_gap_from_gap {areas : Areas} {len candidate start : Nat} (aligned : candidate%4096 = 0)
    (low : USER_MMAP_START ≤ candidate)
    (run : find_mmap_gap_from areas len USER_MMAP_LIMIT candidate = .ok (some start)) : Gap areas len start := by
  induction candidate using Nat.strongRecMeasure (fun candidate => USER_MMAP_LIMIT+1-candidate) with
  | ind candidate ih =>
    unfold find_mmap_gap_from at run
    split at run
    · cases run
    · rename_i answer step
      cases run
      obtain ⟨rfl,high,apart⟩ := gap_step_answer step
      exact ⟨aligned,low,high,apart⟩
    · rename_i next step
      have later := gap_step_moves step
      exact ih next (by omega) (gap_step_next step) (by omega) run

theorem find_mmap_gap_gap {areas : Areas} {len start : Nat} (run : find_mmap_gap areas len = .ok (some start)) :
    Gap areas len start := find_mmap_gap_from_gap (by decide) (le_refl _) run

theorem choose_mmap_addr_gap {areas : Areas} {hint len start : Nat}
    (run : choose_mmap_addr areas hint len = .ok (some start)) : Gap areas len start := by
  unfold choose_mmap_addr at run
  by_cases given : hint ≠ 0
  · rw [if_pos given] at run
    cases rounded : align_up hint with
    | error e =>
      rw [rounded] at run
      cases run
    | ok addr =>
      rw [rounded] at run
      change (if addr ≥ USER_MMAP_START then _ else _) = _ at run
      by_cases inside : addr ≥ USER_MMAP_START
      · rw [if_pos inside] at run
        cases added : checked_add addr len with
        | none =>
          rw [added] at run
          cases run
        | some stop =>
          rw [added] at run
          dsimp only at run
          by_cases usable : (decide (stop ≤ USER_MMAP_LIMIT) && mmap_range_available areas addr stop) = true
          · rw [if_pos usable] at run
            cases run
            have sum := (checked_add_some added).1
            simp only [Bool.and_eq_true,decide_eq_true_eq,mmap_range_available,List.all_eq_true] at usable
            refine ⟨align_up_mod rounded,inside,by omega,fun i used => ?_⟩
            have clear := usable.2 i (List.mem_finRange i)
            rw [sum]
            simpa [used,Apart] using clear
          · rw [if_neg usable] at run
            exact find_mmap_gap_gap run
      · rw [if_neg inside] at run
        exact find_mmap_gap_gap run
  · rw [if_neg given] at run
    exact find_mmap_gap_gap run

/-! ### Removing a range -/

/-- The pages of a tidy table outside a range, once the areas below slot `i` are clear
    of it. -/
structure Removing (start stop : Nat) (areas0 : Areas) (done : Fin MAX_MMAP_AREAS → Prop) (areas : Areas) : Prop where
  tidy : Tidy areas
  clear : ∀ j, done j → (areas j).used = true → Apart start stop (areas j).start (areas j).area_end
  covers : ∀ n prot, ¬ (start/4096 ≤ n ∧ n < stop/4096) → (Covers areas n prot ↔ Covers areas0 n prot)
  less : ∀ n prot, Covers areas n prot → Covers areas0 n prot

section
variable {start stop : Nat} {areas0 areas areas' : Areas} {done : Fin MAX_MMAP_AREAS → Prop} {i : Fin MAX_MMAP_AREAS}

/-- A slot that is already clear of the range. -/
theorem Removing.skip (now : Removing start stop areas0 done areas)
    (clear : (areas i).used = true → Apart start stop (areas i).start (areas i).area_end) :
    Removing start stop areas0 (fun j => done j ∨ j = i) areas := by
  refine { now with clear := ?_ }
  rintro j (before | rfl) used
  · exact now.clear j before used
  · exact clear used

/-- The area of a slot is replaced by a part of it. -/
theorem Removing.trim (now : Removing start stop areas0 done areas) (start_aligned : start%4096 = 0) (stop_aligned : stop%4096 = 0)
    (used : (areas i).used = true) {part : MmapArea} (prot : part.prot = (areas i).prot)
    (placed : part.used = true → Placed part)
    (inside : part.used = true → (areas i).start ≤ part.start ∧ part.area_end ≤ (areas i).area_end)
    (clear : part.used = true → Apart start stop part.start part.area_end)
    (rest : ∀ a, (areas i).start ≤ a → a < (areas i).area_end → ¬ (start ≤ a ∧ a < stop) →
      part.used = true ∧ part.start ≤ a ∧ a < part.area_end) :
    Removing start stop areas0 (fun j => done j ∨ j = i) (Function.update areas i part) := by
  have whole := now.tidy.placed i used
  have forth : ∀ n p, Holds part n p → Holds (areas i) n p := by
    rintro n p ⟨usedP,low,high,same⟩
    have bounds := inside usedP
    exact ⟨used,by omega,by omega,by rw [← prot]; exact same⟩
  refine ⟨now.tidy.put placed fun usedP j other usedJ => ?_,?_,?_,?_⟩
  · have bounds := inside usedP
    have := apart_iff.mp (now.tidy.apart i j other.symm used usedJ)
    exact apart_iff.mpr (by omega)
  · rintro j kept usedJ
    by_cases here : j = i
    · subst here
      rw [Function.update_self] at usedJ ⊢
      exact clear usedJ
    · rw [Function.update_of_ne here] at usedJ ⊢
      exact now.clear j (kept.resolve_right here) usedJ
  · intro n p outside
    rw [← now.covers n p outside,covers_put]
    constructor
    · rintro (holds | ⟨j,_,holds⟩)
      · exact ⟨i,forth n p holds⟩
      · exact ⟨j,holds⟩
    · rintro ⟨j,holds⟩
      by_cases here : j = i
      · subst here
        obtain ⟨_,low,high,same⟩ := holds
        have lenEnd : (areas j).area_end%4096 = 0 := by
          have := whole.aligned
          have := whole.whole
          unfold MmapArea.area_end
          omega
        obtain ⟨usedP,lowP,highP⟩ := rest (n*4096) (by have := whole.aligned; omega) (by omega) (by omega)
        have placedP := placed usedP
        have endP : part.area_end%4096 = 0 := by
          have := placedP.aligned
          have := placedP.whole
          unfold MmapArea.area_end
          omega
        exact .inl ⟨usedP,by omega,by omega,by rw [prot]; exact same⟩
      · exact .inr ⟨j,here,holds⟩
  · intro n p covered
    rw [covers_put] at covered
    rcases covered with holds | ⟨j,_,holds⟩
    · exact now.less n p ⟨i,forth n p holds⟩
    · exact now.less n p ⟨j,holds⟩

/-- The range is in the middle of an area, whose tail goes to a free slot. -/
theorem Removing.split (now : Removing start stop areas0 done areas) (start_aligned : start%4096 = 0) (stop_aligned : stop%4096 = 0)
    (used : (areas i).used = true) (order : start < stop) (low : (areas i).start < start) (high : stop < (areas i).area_end)
    {slot : Fin MAX_MMAP_AREAS} {head tail : MmapArea} (head_eq : head = { areas i with len := start-(areas i).start })
    (tail_eq : tail = { start := stop, len := (areas i).area_end-stop, prot := (areas i).prot, flags := (areas i).flags, used := true })
    (free : (Function.update areas i head slot).used = false) :
    Removing start stop areas0 (fun j => done j ∨ j = i) (Function.update (Function.update areas i head) slot tail) := by
  have whole := now.tidy.placed i used
  have alignedA := whole.aligned
  have wholeA := whole.whole
  have lowA := whole.low
  have highA := whole.high
  have endA : (areas i).area_end = (areas i).start+(areas i).len := rfl
  have headUsed : head.used = true := by rw [head_eq]; exact used
  have headStart : head.start = (areas i).start := by rw [head_eq]
  have headEnd : head.area_end = start := by
    rw [head_eq]
    simp only [MmapArea.area_end]
    omega
  have tailStart : tail.start = stop := by rw [tail_eq]
  have tailEnd : tail.area_end = (areas i).area_end := by
    rw [tail_eq]
    simp only [MmapArea.area_end] at high ⊢
    omega
  have different : slot ≠ i := by
    rintro rfl
    rw [Function.update_self,headUsed] at free
    cases free
  have headPlaced : Placed head := by
    refine ⟨by rw [headStart]; exact alignedA,?_,?_,by rw [headStart]; exact lowA,by rw [headEnd]; omega⟩
    · rw [head_eq]
      dsimp only
      omega
    · rw [head_eq]
      dsimp only
      omega
  have tailPlaced : Placed tail := by
    refine ⟨by rw [tailStart]; exact stop_aligned,?_,?_,by rw [tailStart]; omega,by rw [tailEnd]; exact highA⟩
    · rw [tail_eq]
      dsimp only
      omega
    · rw [tail_eq]
      dsimp only
      omega
  have tidy1 : Tidy (Function.update areas i head) := by
    refine now.tidy.put (fun _ => headPlaced) fun _ j other usedJ => ?_
    have := apart_iff.mp (now.tidy.apart i j other.symm used usedJ)
    rw [headStart,headEnd]
    exact apart_iff.mpr (by omega)
  have back : ∀ n p, Holds head n p ∨ Holds tail n p → Holds (areas i) n p := by
    rintro n p (⟨_,first,last,same⟩ | ⟨_,first,last,same⟩)
    · rw [headStart] at first
      rw [headEnd] at last
      rw [head_eq] at same
      exact ⟨used,first,by omega,same⟩
    · rw [tailStart] at first
      rw [tailEnd] at last
      rw [tail_eq] at same
      exact ⟨used,by omega,last,same⟩
  have both : ∀ n p, Covers (Function.update (Function.update areas i head) slot tail) n p ↔
      Holds tail n p ∨ Holds head n p ∨ ∃ j, j ≠ i ∧ Holds (areas j) n p := by
    intro n p
    rw [covers_insert free,covers_put]
  refine ⟨tidy1.put (fun _ => tailPlaced) fun _ j other usedJ => ?_,?_,?_,?_⟩
  · rw [tailStart,tailEnd]
    by_cases here : j = i
    · subst here
      rw [Function.update_self,headStart,headEnd]
      exact apart_iff.mpr (by omega)
    · rw [Function.update_of_ne here] at usedJ ⊢
      have := apart_iff.mp (now.tidy.apart i j (Ne.symm here) used usedJ)
      exact apart_iff.mpr (by omega)
  · rintro j kept usedJ
    by_cases last : j = slot
    · subst last
      rw [Function.update_self,tailStart]
      exact apart_iff.mpr (by omega)
    · rw [Function.update_of_ne last] at usedJ ⊢
      by_cases here : j = i
      · subst here
        rw [Function.update_self,headEnd]
        exact apart_iff.mpr (by omega)
      · rw [Function.update_of_ne here] at usedJ ⊢
        exact now.clear j (kept.resolve_right here) usedJ
  · intro n p outside
    rw [← now.covers n p outside,both]
    constructor
    · rintro (holds | holds | ⟨j,_,holds⟩)
      · exact ⟨i,back n p (.inr holds)⟩
      · exact ⟨i,back n p (.inl holds)⟩
      · exact ⟨j,holds⟩
    · rintro ⟨j,holds⟩
      by_cases here : j = i
      · subst here
        obtain ⟨_,first,last,same⟩ := holds
        by_cases before : n < start/4096
        · exact .inr (.inl ⟨headUsed,by rw [headStart]; exact first,by rw [headEnd]; exact before,by rw [head_eq]; exact same⟩)
        · exact .inl ⟨by rw [tail_eq],by rw [tailStart]; omega,by rw [tailEnd]; exact last,by rw [tail_eq]; exact same⟩
      · exact .inr (.inr ⟨j,here,holds⟩)
  · intro n p covered
    rw [both] at covered
    rcases covered with holds | holds | ⟨j,_,holds⟩
    · exact now.less n p ⟨i,back n p (.inr holds)⟩
    · exact now.less n p ⟨i,back n p (.inl holds)⟩
    · exact now.less n p ⟨j,holds⟩

/-- One round of `remove_mmap_range`. -/
theorem Removing.round (now : Removing start stop areas0 done areas) (start_aligned : start%4096 = 0) (stop_aligned : stop%4096 = 0)
    (order : start < stop) (run : remove_mmap_area start stop areas i = .ok areas') :
    Removing start stop areas0 (fun j => done j ∨ j = i) areas' := by
  unfold remove_mmap_area at run
  dsimp only at run
  by_cases idle : (!(areas i).used || !ranges_overlap start stop (areas i).start (areas i).area_end) = true
  · rw [if_pos idle] at run
    cases run
    refine now.skip fun used => ?_
    simpa [used,Apart] using idle
  rw [if_neg idle] at run
  have used : (areas i).used = true := by
    cases flag : (areas i).used
    · simp [flag] at idle
    · rfl
  have overlap : start < (areas i).area_end ∧ (areas i).start < stop := by
    simpa [used,ranges_overlap] using idle
  have whole := now.tidy.placed i used
  have alignedA := whole.aligned
  have wholeA := whole.whole
  have lowA := whole.low
  have highA := whole.high
  have endA : (areas i).area_end = (areas i).start+(areas i).len := rfl
  by_cases all : (decide (start ≤ (areas i).start) && decide (stop ≥ (areas i).area_end)) = true
  · rw [if_pos all] at run
    cases run
    simp only [Bool.and_eq_true,decide_eq_true_eq] at all
    refine ⟨now.tidy.put (fun h => by simp [MmapArea.EMPTY] at h) (fun h => by simp [MmapArea.EMPTY] at h),?_,?_,?_⟩
    · rintro j kept usedJ
      by_cases here : j = i
      · subst here
        rw [Function.update_self] at usedJ
        simp [MmapArea.EMPTY] at usedJ
      · rw [Function.update_of_ne here] at usedJ ⊢
        exact now.clear j (kept.resolve_right here) usedJ
    · intro n p outside
      rw [← now.covers n p outside,covers_put]
      constructor
      · rintro (⟨h,_⟩ | ⟨j,_,holds⟩)
        · simp [MmapArea.EMPTY] at h
        · exact ⟨j,holds⟩
      · rintro ⟨j,holds⟩
        refine .inr ⟨j,?_,holds⟩
        rintro rfl
        obtain ⟨_,first,last,_⟩ := holds
        omega
    · intro n p covered
      rw [covers_put] at covered
      rcases covered with ⟨h,_⟩ | ⟨j,_,holds⟩
      · simp [MmapArea.EMPTY] at h
      · exact now.less n p ⟨j,holds⟩
  rw [if_neg all] at run
  simp only [Bool.and_eq_true,decide_eq_true_eq,not_and,not_le] at all
  by_cases front : start ≤ (areas i).start
  · rw [if_pos front] at run
    cases run
    have beyond := all front
    refine now.trim start_aligned stop_aligned used rfl (fun _ => ⟨stop_aligned,?_,?_,?_,?_⟩) (fun _ => ?_) (fun _ => ?_) ?_
    · dsimp only
      omega
    · dsimp only
      omega
    · dsimp only
      omega
    · simp only [MmapArea.area_end] at *
      omega
    · simp only [MmapArea.area_end] at *
      omega
    · exact apart_iff.mpr (.inl (le_refl _))
    · intro a first last outside
      simp only [MmapArea.area_end] at *
      exact ⟨used,by omega,by omega⟩
  rw [if_neg front] at run
  by_cases back : stop ≥ (areas i).area_end
  · rw [if_pos back] at run
    cases run
    refine now.trim start_aligned stop_aligned used rfl (fun _ => ⟨alignedA,?_,?_,lowA,?_⟩) (fun _ => ?_) (fun _ => ?_) ?_
    · dsimp only
      omega
    · dsimp only
      omega
    · simp only [MmapArea.area_end] at *
      omega
    · simp only [MmapArea.area_end] at *
      omega
    · refine apart_iff.mpr (.inr ?_)
      simp only [MmapArea.area_end] at *
      omega
    · intro a first last outside
      simp only [MmapArea.area_end] at *
      exact ⟨used,by omega,by omega⟩
  rw [if_neg back] at run
  cases found : find_free_mmap_slot (Function.update areas i { areas i with len := start-(areas i).start }) with
  | none =>
    rw [found] at run
    cases run
  | some slot =>
    rw [found] at run
    cases run
    exact now.split start_aligned stop_aligned used order (by omega) (by omega) rfl rfl (find_free_mmap_slot_some found)

end

/-- The range is taken out of the table. -/
theorem remove_mmap_range_covers {areas areas' : Areas} {start stop : Nat} (tidy : Tidy areas) (start_aligned : start%4096 = 0)
    (stop_aligned : stop%4096 = 0) (order : start < stop) (run : remove_mmap_range areas start stop = .ok areas') :
    Tidy areas' ∧ ∀ n prot, Covers areas' n prot ↔ Covers areas n prot ∧ ¬ (start/4096 ≤ n ∧ n < stop/4096) := by
  have loop : ∀ (list : List (Fin MAX_MMAP_AREAS)) (done : Fin MAX_MMAP_AREAS → Prop) (now : Areas),
      Removing start stop areas done now → list.foldlM (remove_mmap_area start stop) now = .ok areas' →
      Removing start stop areas (fun j => done j ∨ j ∈ list) areas' := by
    intro list
    induction list with
    | nil =>
      intro done now removing finished
      cases finished
      simpa using removing
    | cons i rest ih =>
      intro done now removing finished
      rw [List.foldlM_cons] at finished
      cases next : remove_mmap_area start stop now i with
      | error e =>
        rw [next] at finished
        cases finished
      | ok after =>
        rw [next] at finished
        have last := ih _ after (removing.round start_aligned stop_aligned order next) finished
        refine { last with clear := fun j kept => last.clear j ?_ }
        rcases kept with before | member
        · exact .inl (.inl before)
        · rcases List.mem_cons.mp member with rfl | later
          · exact .inl (.inr rfl)
          · exact .inr later
  have final := loop (List.finRange MAX_MMAP_AREAS) (fun _ => False) areas
    ⟨tidy,fun _ none => none.elim,fun _ _ _ => .rfl,fun _ _ h => h⟩ run
  refine ⟨final.tidy,fun n prot => ?_⟩
  constructor
  · intro covered
    refine ⟨final.less n prot covered,fun inside => ?_⟩
    obtain ⟨i,used,first,last,_⟩ := covered
    have := apart_iff.mp (final.clear i (.inr (List.mem_finRange i)) used)
    omega
  · rintro ⟨covered,outside⟩
    exact (final.covers n prot outside).mpr covered

end Unit00.Areas
