import Mathlib.Data.List.Basic
import Mathlib.Logic.Relation
import Mathlib.Tactic.Common

/-!
Running programs with a state and exceptions: what sequencing, loops over a
range of indices and work on a part of the state do to a run.
-/
namespace Unit00.Execution
variable {ε δ σ τ α β : Type}

@[simp] theorem run_raise (e : ε) (s : σ) : (throw e : EStateM ε σ α).run s = .error e s := rfl

/-- A program on a part of the state, run on the whole state; its exceptions are
    some of those of the whole. -/
def onPart (part : τ → σ) (put : σ → τ → τ) (raise : δ → ε) (x : EStateM δ σ α) : EStateM ε τ α := fun s =>
  match x.run (part s) with
  | .ok a p => .ok a (put p s)
  | .error e p => .error (raise e) (put p s)

@[simp] theorem run_onPart (part : τ → σ) (put : σ → τ → τ) (raise : δ → ε) (x : EStateM δ σ α) (s : τ) :
    (onPart part put raise x).run s = match x.run (part s) with
      | .ok a p => .ok a (put p s)
      | .error e p => .error (raise e) (put p s) := rfl

/-- A sequence whose first half returns goes on with the second. -/
theorem run_seq {x : EStateM ε σ α} {f : α → EStateM ε σ β} {s t : σ} {a : α} (first : x.run s = .ok a t) :
    (x >>= f).run s = (f a).run t := by
  rw [EStateM.run_bind,first]

theorem run_seq_error {x : EStateM ε σ α} {f : α → EStateM ε σ β} {s t : σ} {e : ε} (first : x.run s = .error e t) :
    (x >>= f).run s = .error e t := by
  rw [EStateM.run_bind,first]

/-- A run that returned went through both halves of a sequence. -/
theorem bind_ok {x : EStateM ε σ α} {f : α → EStateM ε σ β} {s t : σ} {b : β}
    (run : (x >>= f).run s = .ok b t) : ∃ a m, x.run s = .ok a m ∧ (f a).run m = .ok b t := by
  rw [EStateM.run_bind] at run
  cases first : x.run s with
  | ok a m => exact ⟨a,m,rfl,by simpa [first] using run⟩
  | error e m => simp [first] at run

/-- A run returns in a state of `Q`, or raises an exception that `E` allows in the state it leaves. -/
def Meets (Q : σ → Prop) (E : ε → σ → Prop) : EStateM.Result ε σ PUnit → Prop
  | .ok _ s => Q s
  | .error e s => E e s

/-- An invariant of every round of a loop, indexed by the round that comes next, holds
    at the end; a round may raise an exception instead. -/
theorem forM_range'_meets (I : Nat → σ → Prop) (E : ε → σ → Prop) (body : Nat → EStateM ε σ PUnit) (lo n : Nat) (s : σ)
    (start : I lo s) (round : ∀ k s, lo ≤ k → k < lo+n → I k s → Meets (I (k+1)) E ((body k).run s)) :
    Meets (I (lo+n)) E ((forM (List.range' lo n) body).run s) := by
  induction n generalizing lo s with
  | zero => exact start
  | succ n ih =>
    have first := round lo s (by omega) (by omega) start
    rw [List.range'_succ,List.forM_cons]
    cases run : (body lo).run s with
    | error e t =>
      rw [run] at first
      rw [run_seq_error run]
      exact first
    | ok _ t =>
      rw [run] at first
      rw [run_seq run,show lo+(n+1) = lo+1+n by omega]
      exact ih (lo+1) t first fun k s low high inv => round k s (by omega) (by omega) inv

theorem Meets.total {Q : σ → Prop} {r : EStateM.Result ε σ PUnit} (meets : Meets Q (fun _ _ => False) r) :
    ∃ s, r = .ok ⟨⟩ s ∧ Q s := by
  match r with
  | .ok _ s => exact ⟨s,rfl,meets⟩
  | .error _ _ => exact meets.elim

/-- Induction over a loop on a range: an invariant that each round carries to the
    next index holds at the end, and the loop returns. -/
theorem forM_range' (I : Nat → σ → Prop) (body : Nat → EStateM ε σ PUnit) (lo n : Nat) (s : σ) (start : I lo s)
    (round : ∀ k s, lo ≤ k → k < lo+n → I k s → ∃ s', (body k).run s = .ok ⟨⟩ s' ∧ I (k+1) s') :
    ∃ s', (forM (List.range' lo n) body).run s = .ok ⟨⟩ s' ∧ I (lo+n) s' := by
  refine (forM_range'_meets I (fun _ _ => False) body lo n s start fun k s low high inv => ?_).total
  obtain ⟨s',run,next⟩ := round k s low high inv
  rw [run]
  exact next

/-- The same for a loop that may stop with an exception: whatever it returns
    satisfies the invariant at the end of the range. -/
theorem forM_range'_ok (I : Nat → σ → Prop) (body : Nat → EStateM ε σ PUnit) (lo n : Nat) (s t : σ) (start : I lo s)
    (round : ∀ k s s', lo ≤ k → k < lo+n → I k s → (body k).run s = .ok ⟨⟩ s' → I (k+1) s')
    (run : (forM (List.range' lo n) body).run s = .ok ⟨⟩ t) : I (lo+n) t := by
  induction n generalizing lo s with
  | zero =>
    have same : s = t := by simpa using run
    exact same ▸ start
  | succ n ih =>
    rw [List.range'_succ,List.forM_cons] at run
    obtain ⟨_,middle,first,rest⟩ := bind_ok run
    have last := ih (lo+1) middle (round lo s middle (by omega) (by omega) start first)
      (fun k s s' low high => round k s s' (by omega) (by omega)) rest
    rwa [show lo+(n+1) = lo+1+n by omega]

/-! ### What every run of a program keeps -/

/-- Runs that return relate their first and last states by `R`, and every exception
    is one of `E`. -/
structure Guarded (R : σ → σ → Prop) (E : ε → Prop) (x : EStateM ε σ α) : Prop where
  runs : ∀ s, match x.run s with
    | .ok _ t => R s t
    | .error e _ => E e

section Guarded
variable {R : σ → σ → Prop} {E : ε → Prop}

theorem Guarded.ok {x : EStateM ε σ α} (guarded : Guarded R E x) {s t : σ} {a : α} (run : x.run s = .ok a t) :
    R s t := by
  have := guarded.runs s
  rwa [run] at this

theorem Guarded.error {x : EStateM ε σ α} (guarded : Guarded R E x) {s t : σ} {e : ε} (run : x.run s = .error e t) :
    E e := by
  have := guarded.runs s
  rwa [run] at this

theorem guarded_pure [Std.Refl R] (a : α) : Guarded R E (pure a) := ⟨fun s => Std.Refl.refl s⟩

theorem guarded_get [Std.Refl R] : Guarded R E (get : EStateM ε σ σ) := ⟨fun s => Std.Refl.refl s⟩

theorem guarded_throw {e : ε} (allowed : E e) : Guarded R E (throw e : EStateM ε σ α) := ⟨fun _ => allowed⟩

theorem guarded_modify {f : σ → σ} (keep : ∀ s, R s (f s)) : Guarded R E (modify f : EStateM ε σ PUnit) := ⟨keep⟩

theorem guarded_bind [IsTrans σ R] {x : EStateM ε σ α} {f : α → EStateM ε σ β} (first : Guarded R E x)
    (second : ∀ a, Guarded R E (f a)) : Guarded R E (x >>= f) := by
  refine ⟨fun s => ?_⟩
  rw [EStateM.run_bind]
  cases half : x.run s with
  | error e m => exact first.error half
  | ok a m =>
    have before := first.ok half
    have after := (second a).runs m
    dsimp only
    cases rest : (f a).run m with
    | ok b t =>
      rw [rest] at after
      exact IsTrans.trans _ _ _ before after
    | error e t =>
      rw [rest] at after
      exact after

theorem guarded_ite {c : Prop} [Decidable c] {x y : EStateM ε σ α} (yes : Guarded R E x) (no : Guarded R E y) :
    Guarded R E (if c then x else y) := by
  split
  · exact yes
  · exact no

theorem guarded_forM [Std.Refl R] [IsTrans σ R] {body : β → EStateM ε σ PUnit} (list : List β)
    (round : ∀ b, Guarded R E (body b)) : Guarded R E (forM list body) := by
  induction list with
  | nil => exact guarded_pure _
  | cons b rest ih =>
    rw [List.forM_cons]
    exact guarded_bind (round b) fun _ => ih

end Guarded

end Unit00.Execution
