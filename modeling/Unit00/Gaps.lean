import Unit00.Areas

/-!
The search for a gap between the mmap areas. The scan jumps from the end of one
area that blocks the candidate to the next and never passes over a gap, so it
ends with the lowest one. A hint of the caller is taken where it names a gap;
hints near the top of the address space are not passed over as they should be.
-/
namespace Unit00.Gaps
open Unit00.Frame Unit00.Task Unit00.Space Unit00.Areas

/-! ### The scan -/

/-- The ends of the used areas are whole pages, and rounding them up does not overflow. -/
def Ends (areas : Areas) : Prop :=
  ∀ i, (areas i).used = true → (areas i).area_end%4096 = 0 ∧ (areas i).area_end < 2^64-1-4095

/-- The lowest gap, or none when there is no gap at all. -/
def Lowest (areas : Areas) (len : Nat) : Option Nat → Prop
  | some start => Gap areas len start ∧ ∀ other, Gap areas len other → start ≤ other
  | none => ∀ other, ¬ Gap areas len other

/-- The address after rounding up to a page, as a number. -/
def alignUp (addr : Nat) : Nat := (addr+4095)/4096*4096

theorem align_up_eq {addr : Nat} (small : addr+4096 < 2^64) : align_up addr = .ok (alignUp addr) := by
  unfold align_up
  rw [if_pos (show addr+PAGE_SIZE < 2^64 from small)]
  rfl

theorem align_up_aligned {addr : Nat} (aligned : addr%4096 = 0) (small : addr < 2^64-1-4095) : align_up addr = .ok addr := by
  rw [align_up_eq (by omega)]
  unfold alignUp
  congr 1
  omega

/-- One round of the scan: there is no room left, the candidate is a gap, or a used area blocks it and the scan goes on
    at its end. -/
theorem gap_step_cases {areas : Areas} (ends : Ends areas) (len limit candidate : Nat) (small : limit < 2^64) :
    (gap_step areas len limit candidate = .ok (.inl none) ∧ limit < candidate+len) ∨
    gap_step areas len limit candidate = .ok (.inl (some candidate)) ∨
    ∃ i, gap_step areas len limit candidate = .ok (.inr (areas i).area_end) ∧ (areas i).used = true ∧
      candidate < (areas i).area_end ∧ (areas i).start < candidate+len := by
  unfold gap_step
  cases added : checked_add candidate len with
  | none =>
    unfold checked_add at added
    split at added
    · cases added
    · exact .inl ⟨rfl,by omega⟩
  | some stop =>
    have sum := (checked_add_some added).1
    dsimp only
    by_cases beyond : stop > limit
    · rw [if_pos beyond]
      exact .inl ⟨rfl,by omega⟩
    rw [if_neg beyond]
    cases found : first_blocking areas candidate stop with
    | none => exact .inr (.inl rfl)
    | some i =>
      have overlap := List.find?_some found
      simp only [blocking,ranges_overlap,Bool.and_eq_true,decide_eq_true_eq] at overlap
      obtain ⟨used,low,high⟩ := overlap
      refine .inr (.inr ⟨i,?_,used,low,by omega⟩)
      dsimp only
      rw [align_up_aligned (ends i used).1 (ends i used).2]

/-- The scan from a candidate that no gap is below ends with the lowest gap. -/
theorem find_mmap_gap_from_lowest {areas : Areas} (ends : Ends areas) {len candidate : Nat} (aligned : candidate%4096 = 0)
    (low : USER_MMAP_START ≤ candidate) (below : ∀ other, Gap areas len other → candidate ≤ other) :
    ∃ answer, find_mmap_gap_from areas len USER_MMAP_LIMIT candidate = .ok answer ∧ Lowest areas len answer := by
  induction candidate using Nat.strongRecMeasure (fun candidate => USER_MMAP_LIMIT+1-candidate) with
  | ind candidate ih =>
    rw [find_mmap_gap_from]
    rcases gap_step_cases ends len USER_MMAP_LIMIT candidate (by decide) with ⟨step,full⟩ | step | ⟨i,step,used,past,overlaps⟩
    · refine ⟨none,by split <;> simp_all,fun other gap => ?_⟩
      have least := below other gap
      have high := gap.high
      omega
    · obtain ⟨_,high,apart⟩ := gap_step_answer step
      exact ⟨some candidate,by split <;> simp_all,⟨aligned,low,high,apart⟩,below⟩
    · have later := gap_step_moves step
      obtain ⟨answer,run,lowest⟩ := ih (areas i).area_end (by omega) (ends i used).1 (by omega) fun other gap => by
        -- A gap from the candidate on is past the area that blocks the candidate.
        have least := below other gap
        rcases apart_iff.mp (gap.apart i used) with before | after
        · omega
        · exact after
      exact ⟨answer,by split <;> simp_all,lowest⟩

/-- The search ends, without an overflow, with the lowest gap, and with nothing only when there is none. -/
theorem find_mmap_gap_lowest {areas : Areas} (ends : Ends areas) (len : Nat) :
    ∃ answer, find_mmap_gap areas len = .ok answer ∧ Lowest areas len answer :=
  find_mmap_gap_from_lowest ends (by decide) (le_refl _) fun _ gap => gap.low

/-- Two areas in the wrong order of slots, with one page between them. -/
def twoAreas : Areas := fun i =>
  if i.val = 0 then ⟨USER_MMAP_START+0x2000,0x3000,1,0x22,true⟩
  else if i.val = 1 then ⟨USER_MMAP_START,0x1000,3,0x22,true⟩
  else .EMPTY

theorem find_mmap_gap_lowest_between :
    Ends twoAreas ∧ ∃ answer, find_mmap_gap twoAreas 0x2000 = .ok answer ∧ Lowest twoAreas 0x2000 answer := by
  have ends : Ends twoAreas := by
    unfold Ends
    decide +kernel
  exact ⟨ends,find_mmap_gap_lowest ends 0x2000⟩

/-! ### The hint -/

/-- The hint of a caller names a gap. -/
def Usable (areas : Areas) (hint len : Nat) : Prop := hint ≠ 0 ∧ Gap areas len (alignUp hint)

/-- The hint is only advisory: a usable one is taken, any other is passed over, and the search does not fail because of
    it. -/
def Advisory (areas : Areas) (hint len : Nat) : Prop :=
  (Usable areas hint len → choose_mmap_addr areas hint len = .ok (some (alignUp hint))) ∧
  (¬ Usable areas hint len → choose_mmap_addr areas hint len = find_mmap_gap areas len) ∧
  ((∃ start, Gap areas len start) → ∃ start, choose_mmap_addr areas hint len = .ok (some start))

theorem Tidy.ends {areas : Areas} (tidy : Tidy areas) : Ends areas := by
  intro i used
  have placed := tidy.placed i used
  have aligned := placed.aligned
  have whole := placed.whole
  have high := placed.high
  have limit : USER_MMAP_LIMIT = 0x3f000000 := rfl
  have place : (areas i).area_end = (areas i).start+(areas i).len := rfl
  omega

theorem Tidy.lowest_gap {areas : Areas} (tidy : Tidy areas) (len : Nat) :
    ∃ answer, find_mmap_gap areas len = .ok answer ∧ Lowest areas len answer :=
  find_mmap_gap_from_lowest (Tidy.ends tidy) (by decide) (le_refl _) fun _ gap => gap.low

theorem available_iff {areas : Areas} {addr stop : Nat} :
    mmap_range_available areas addr stop = true ↔
      ∀ i, (areas i).used = true → Apart addr stop (areas i).start (areas i).area_end := by
  unfold mmap_range_available
  rw [List.all_eq_true]
  constructor
  · intro clear i used
    simpa [used,Apart] using clear i (List.mem_finRange i)
  · intro clear i _
    by_cases used : (areas i).used = true
    · have apart := clear i used
      unfold Apart at apart
      simp [apart]
    · simp [used]

/-- What the choice of an address comes to, by the size of the hint. -/
theorem choose_cases (areas : Areas) (hint len : Nat) :
    (hint+4096 ≥ 2^64 ∧ hint ≠ 0 ∧ choose_mmap_addr areas hint len = .error (.panic "attempt to add with overflow")) ∨
    (hint+4096 < 2^64 ∧ hint ≠ 0 ∧ USER_MMAP_START ≤ alignUp hint ∧ 2^64 ≤ alignUp hint+len ∧
      choose_mmap_addr areas hint len = .ok none) ∨
    (Usable areas hint len ∧ hint+4096 < 2^64 ∧ choose_mmap_addr areas hint len = .ok (some (alignUp hint))) ∨
    (¬ Usable areas hint len ∧ (hint = 0 ∨ (hint+4096 < 2^64 ∧ (alignUp hint < USER_MMAP_START ∨ alignUp hint+len < 2^64))) ∧
      choose_mmap_addr areas hint len = find_mmap_gap areas len) := by
  unfold choose_mmap_addr
  by_cases given : hint ≠ 0
  swap
  · rw [if_neg given]
    exact .inr (.inr (.inr ⟨fun usable => given usable.1,.inl (by omega),rfl⟩))
  rw [if_pos given]
  by_cases small : hint+4096 < 2^64
  swap
  · refine .inl ⟨by omega,given,?_⟩
    have failed : align_up hint = .error (.panic "attempt to add with overflow") := by
      unfold align_up
      rw [if_neg (show ¬ hint+PAGE_SIZE < 2^64 from small)]
    rw [failed]
    rfl
  rw [align_up_eq small]
  show _ ∨ (_ ∧ _ ∧ _ ∧ _ ∧ (if alignUp hint ≥ USER_MMAP_START then _ else _) = _) ∨
    (_ ∧ _ ∧ (if alignUp hint ≥ USER_MMAP_START then _ else _) = _) ∨
    (_ ∧ _ ∧ (if alignUp hint ≥ USER_MMAP_START then _ else _) = _)
  by_cases inside : alignUp hint ≥ USER_MMAP_START
  swap
  · rw [if_neg inside]
    exact .inr (.inr (.inr ⟨fun usable => inside usable.2.low,.inr ⟨small,.inl (by omega)⟩,rfl⟩))
  rw [if_pos inside]
  cases added : checked_add (alignUp hint) len with
  | none =>
    unfold checked_add at added
    split at added
    · cases added
    · exact .inr (.inl ⟨small,given,inside,by omega,rfl⟩)
  | some stop =>
    obtain ⟨sum,bound⟩ := checked_add_some added
    have gap_iff : Gap areas len (alignUp hint) ↔ stop ≤ USER_MMAP_LIMIT ∧ mmap_range_available areas (alignUp hint) stop = true := by
      rw [available_iff,← sum]
      constructor
      · exact fun gap => ⟨gap.high,gap.apart⟩
      · rintro ⟨high,apart⟩
        have aligned : alignUp hint%4096 = 0 := by
          unfold alignUp
          omega
        exact ⟨aligned,inside,high,apart⟩
    dsimp only
    by_cases usable : (decide (stop ≤ USER_MMAP_LIMIT) && mmap_range_available areas (alignUp hint) stop) = true
    · rw [if_pos usable]
      rw [Bool.and_eq_true,decide_eq_true_eq] at usable
      exact .inr (.inr (.inl ⟨⟨given,gap_iff.mpr usable⟩,small,rfl⟩))
    · rw [if_neg usable]
      rw [Bool.and_eq_true,decide_eq_true_eq] at usable
      exact .inr (.inr (.inr ⟨fun fits => usable (gap_iff.mp fits.2),.inr ⟨small,.inr (by omega)⟩,rfl⟩))

/-- The hint is advisory exactly when rounding it up does not overflow and the end of the range that it asks for does not
    overflow either, unless there is no gap to fall back to. -/
theorem hint_advisory_iff {areas : Areas} (tidy : Tidy areas) {hint len : Nat} :
    Advisory areas hint len ↔
      hint = 0 ∨ (hint+4096 < 2^64 ∧ (alignUp hint < USER_MMAP_START ∨ alignUp hint+len < 2^64 ∨ ¬ ∃ start, Gap areas len start)) := by
  obtain ⟨answer,found,lowest⟩ := Tidy.lowest_gap tidy len
  have limit : USER_MMAP_LIMIT = 0x3f000000 := rfl
  have falls : choose_mmap_addr areas hint len = find_mmap_gap areas len →
      (∃ start, Gap areas len start) → ∃ start, choose_mmap_addr areas hint len = .ok (some start) := by
    rintro same ⟨start,gap⟩
    cases answer with
    | none => exact absurd gap (lowest start)
    | some first => exact ⟨first,by rw [same,found]⟩
  rcases choose_cases areas hint len with
    ⟨large,given,failed⟩ | ⟨small,given,inside,large,failed⟩ | ⟨usable,small,done⟩ | ⟨unusable,fits,done⟩
  · refine iff_of_false ?_ (by omega)
    rintro ⟨_,passed,_⟩
    have unusable : ¬ Usable areas hint len := by
      rintro ⟨_,gap⟩
      have high := gap.high
      unfold alignUp at high
      omega
    have same := passed unusable
    rw [failed,found] at same
    cases same
  · have unusable : ¬ Usable areas hint len := by
      rintro ⟨_,gap⟩
      have high := gap.high
      omega
    constructor
    · rintro ⟨_,_,finds⟩
      refine .inr ⟨small,.inr (.inr fun some_gap => ?_)⟩
      obtain ⟨start,same⟩ := finds some_gap
      rw [failed] at same
      cases same
    · intro fits
      have none : ¬ ∃ start, Gap areas len start := by
        rcases fits with zero | ⟨_,low | fine | none⟩
        · exact absurd zero given
        · omega
        · omega
        · exact none
      refine ⟨fun usable => absurd usable unusable,fun _ => ?_,fun some_gap => absurd some_gap none⟩
      rw [failed,found]
      cases answer with
      | none => rfl
      | some first => exact absurd ⟨first,lowest.1⟩ none
  · refine iff_of_true ⟨fun _ => done,fun unusable => absurd usable unusable,fun _ => ⟨_,done⟩⟩ (.inr ⟨small,.inr (.inl ?_)⟩)
    have high := usable.2.high
    omega
  · refine iff_of_true ⟨fun usable => absurd usable unusable,fun _ => done,falls done⟩ ?_
    rcases fits with zero | ⟨small,low | fine⟩
    · exact .inl zero
    · exact .inr ⟨small,.inl low⟩
    · exact .inr ⟨small,.inr (.inl fine)⟩

theorem twoAreas_tidy : Tidy twoAreas := by
  have placed : ∀ i, (twoAreas i).used = true → (twoAreas i).start%4096 = 0 ∧ (twoAreas i).len%4096 = 0 ∧ 0 < (twoAreas i).len ∧
      USER_MMAP_START ≤ (twoAreas i).start ∧ (twoAreas i).area_end ≤ USER_MMAP_LIMIT := by decide +kernel
  have apart : ∀ i j, i ≠ j → (twoAreas i).used = true → (twoAreas j).used = true →
      ranges_overlap (twoAreas i).start (twoAreas i).area_end (twoAreas j).start (twoAreas j).area_end = false := by decide +kernel
  refine ⟨fun i used => ?_,apart⟩
  obtain ⟨aligned,whole,nonempty,low,high⟩ := placed i used
  exact ⟨aligned,whole,nonempty,low,high⟩

/-- Of two hints beside the same areas one is taken, and the other is passed over as it would overlap. -/
theorem hint_advisory_between : Tidy twoAreas ∧ Advisory twoAreas (USER_MMAP_START+0x5001) 0x2000 ∧
    choose_mmap_addr twoAreas (USER_MMAP_START+0x5001) 0x2000 = .ok (some (USER_MMAP_START+0x6000)) ∧
    choose_mmap_addr twoAreas (USER_MMAP_START+0x1000) 0x2000 = find_mmap_gap twoAreas 0x2000 := by
  have taken : Advisory twoAreas (USER_MMAP_START+0x5001) 0x2000 := (hint_advisory_iff twoAreas_tidy).mpr
    (.inr ⟨by decide,.inr (.inl (by decide))⟩)
  have passed : Advisory twoAreas (USER_MMAP_START+0x1000) 0x2000 := (hint_advisory_iff twoAreas_tidy).mpr
    (.inr ⟨by decide,.inr (.inl (by decide))⟩)
  refine ⟨twoAreas_tidy,taken,taken.1 ⟨by decide,⟨by decide,by decide,by decide,?_⟩⟩,passed.2.1 ?_⟩
  · show ∀ i, (twoAreas i).used = true → ranges_overlap _ _ _ _ = false
    decide +kernel
  · rintro ⟨_,gap⟩
    have apart : ∀ i, i.val = 0 → (twoAreas i).used = true → ranges_overlap _ _ _ _ = false := fun i _ => gap.apart i
    revert apart
    decide +kernel

theorem empty_gap : Gap (fun _ => .EMPTY) 0x2000 USER_MMAP_START := by
  refine ⟨by decide,le_refl _,by decide,fun i used => ?_⟩
  simp [MmapArea.EMPTY] at used

/-- In an empty table a hint of two pages below the top makes a search for two pages fail. -/
theorem hint_not_advisory : ¬ Advisory (fun _ => .EMPTY) (2^64-0x2000) 0x2000 ∧ Tidy (fun _ => .EMPTY) ∧
    choose_mmap_addr (fun _ => .EMPTY) (2^64-0x2000) 0x2000 = .ok none ∧ Gap (fun _ => .EMPTY) 0x2000 USER_MMAP_START := by
  have failed : choose_mmap_addr (fun _ => .EMPTY) (2^64-0x2000) 0x2000 = .ok none := by decide +kernel
  refine ⟨fun advisory => ?_,tidy_empty,failed,empty_gap⟩
  obtain ⟨start,same⟩ := advisory.2.2 ⟨_,empty_gap⟩
  rw [failed] at same
  cases same

end Unit00.Gaps
