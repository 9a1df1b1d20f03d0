import Mathlib.Tactic

/-!
# Fallible computations

The few combinators on `Except` that straight-line fallible code needs: turning
a missing value into an error, peeling one step off a computation that is known
to have succeeded, and reading a result off an evaluated computation.
-/

namespace GtaClaw.Lib

variable {ε α β : Type} {x : Except ε α} {xs : List α} {f : α → Except ε β}

/-- A missing value becomes an error. -/
def okOr (e : ε) : Option α → Except ε α
  | some a => .ok a
  | none => .error e

/-- Goes on only if the condition holds. -/
def require (condition : Bool) (e : ε) : Except ε Unit := if condition then .ok () else .error e

/-- Subtraction that fails instead of going below zero. -/
def checkedSub (a b : Nat) : Option Nat := if b ≤ a then some (a - b) else none

theorem bind_ok {b : β} (h : x >>= f = .ok b) : ∃ a, x = .ok a ∧ f a = .ok b := by
  cases x with
  | error e => simp [bind, Except.bind] at h
  | ok a => exact ⟨a, rfl, h⟩

theorem require_ok {condition : Bool} {e : ε} {u : Unit} (h : require condition e = .ok u) :
    condition = true := by
  unfold require at h
  split at h
  · assumption
  · cases h

theorem okOr_ok {e : ε} {o : Option α} {a : α} (h : okOr e o = .ok a) : o = some a := by
  cases o with
  | none => cases h
  | some b => exact congrArg some (Except.ok.inj h)

theorem map_ok {f : α → β} {b : β} (h : x.map f = .ok b) : ∃ a, x = .ok a ∧ f a = b := by
  cases x with
  | error e => cases h
  | ok a => exact ⟨a, rfl, Except.ok.inj h⟩

/-- The error a computation ends in. -/
def errorOf : Except ε α → Option ε
  | .error e => some e
  | .ok _ => none

theorem exists_ok_of_eval {f : α → Bool} {b : Bool}
    (h : x.toOption.map f = some b) : ∃ a, x = .ok a ∧ f a = b := by
  cases x with
  | error e => cases h
  | ok a => exact ⟨a, rfl, Option.some.inj h⟩

theorem exists_error_of_eval {e : ε} (hx : errorOf x = none) (h : errorOf (x.bind f) = some e) :
    ∃ a, x = .ok a ∧ f a = .error e := by
  cases x with
  | error e => cases hx
  | ok a =>
    change errorOf (f a) = some e at h
    cases hf : f a with
    | ok b => rw [hf] at h; cases h
    | error e' =>
      rw [hf] at h
      cases h
      exact ⟨a, rfl, hf⟩

/-- What every step of a fold keeps, the fold keeps. -/
theorem foldlM_inv {σ : Type} {f : σ → α → Except ε σ} {I : σ → Prop}
    (hstep : ∀ s a s', a ∈ xs → I s → f s a = .ok s' → I s') {s s' : σ} (hs : I s)
    (h : xs.foldlM f s = .ok s') : I s' := by
  induction xs generalizing s with
  | nil =>
    cases h
    exact hs
  | cons a xs ih =>
    obtain ⟨mid, hmid, hrest⟩ := bind_ok h
    have hmid := hstep s a mid List.mem_cons_self hs hmid
    exact ih (fun s a s' hmem => hstep s a s' (List.mem_cons_of_mem _ hmem)) hmid hrest

theorem mapM_ok_iff {ys : List β} :
    xs.mapM f = .ok ys ↔ List.Forall₂ (fun x y => f x = .ok y) xs ys := by
  induction xs generalizing ys with
  | nil =>
    rw [List.forall₂_nil_left_iff]
    exact ⟨fun h => (Except.ok.inj h).symm, fun h => congrArg Except.ok h.symm⟩
  | cons x xs ih =>
    rw [List.mapM_cons, List.forall₂_cons_left_iff]
    constructor
    · intro h
      obtain ⟨y, hy, h⟩ := bind_ok h
      obtain ⟨ys', hys, h⟩ := bind_ok h
      cases h
      exact ⟨y, ys', hy, ih.mp hys, rfl⟩
    · intro h
      obtain ⟨y, ys', hy, hys, rfl⟩ := h
      rw [hy, ih.mpr hys]
      rfl

theorem exists_of_mem_mapM {ys : List β}
    (h : xs.mapM f = .ok ys) {y : β} (hmem : y ∈ ys) : ∃ x ∈ xs, f x = .ok y := by
  have hall := mapM_ok_iff.mp h
  clear h
  induction hall with
  | nil => cases hmem
  | @cons a b as bs hfirst _ ih =>
    rcases List.mem_cons.mp hmem with rfl | hmem
    · exact ⟨a, List.mem_cons_self, hfirst⟩
    · obtain ⟨x, hx, hy⟩ := ih hmem
      exact ⟨x, List.mem_cons_of_mem _ hx, hy⟩

theorem forM_ok_iff {f : α → Except ε Unit} : xs.forM f = .ok () ↔ ∀ x ∈ xs, f x = .ok () := by
  induction xs with
  | nil => exact ⟨fun _ _ hmem => absurd hmem List.not_mem_nil, fun _ => rfl⟩
  | cons x xs ih =>
    rw [List.forall_mem_cons]
    show (f x >>= fun _ => xs.forM f) = .ok () ↔ _
    constructor
    · intro h
      obtain ⟨_, hx, h⟩ := bind_ok h
      exact ⟨hx, ih.mp h⟩
    · intro h
      rw [h.1]
      exact ih.mpr h.2

end GtaClaw.Lib
