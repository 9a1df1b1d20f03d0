import Mathlib.Tactic

/-!
# Loops that carry their own bound

A `loop` or a `while` is one pass over an explicit state: the pass either goes
on with a new state or leaves with a result. What makes such a loop a function
is a measure that every further pass uses up, so the measure and the proof that
it decreases are fields of the loop itself. A loop that could spin cannot be
written down.

`Loop.run` recurses on the measure and not on a well-founded relation, so the
kernel can execute it on concrete states. Proofs never look inside it: they use
`run_of_pass` and `run_of_exit` to take one pass, `run_inv` for an invariant that
holds at every pass, and `run_induct` when the result has to be related to the
state it started from.
-/

namespace GtaClaw.Lib

/-- One pass of a loop, with the measure that bounds how often it can go on. -/
structure Loop (σ α : Type) where
  /-- One pass: go on with a new state, or leave with a result. -/
  body : σ → σ ⊕ α
  /-- What a pass uses up when it goes on. -/
  measure : σ → Nat
  /-- A pass that goes on leaves strictly less. -/
  decreases : ∀ s s', body s = .inl s' → measure s' < measure s

namespace Loop

variable {σ α : Type} {L : Loop σ α} {s : σ} {a : α}

/-- The loop with an explicit bound on the passes left. -/
def go (L : Loop σ α) : (n : Nat) → (s : σ) → L.measure s < n → α
  | 0, _, h => absurd h (Nat.not_lt_zero _)
  | n + 1, s, h =>
    match hb : L.body s with
    | .inr a => a
    | .inl s' => L.go n s' (Nat.lt_of_lt_of_le (L.decreases s s' hb) (Nat.le_of_lt_succ h))

/-- Run the loop from a state until a pass leaves it. -/
def run (L : Loop σ α) (s : σ) : α := L.go (L.measure s + 1) s (Nat.lt_succ_self _)

theorem go_of_exit {n : Nat} (h : L.measure s < n) (hb : L.body s = .inr a) : L.go n s h = a := by
  cases n with
  | zero => exact absurd h (by omega)
  | succ n =>
    rw [go]
    split
    · rename_i a' hb'
      rw [hb] at hb'
      exact (Sum.inr.inj hb').symm
    rename_i s' hb'
    rw [hb] at hb'
    exact absurd hb' (by simp)

theorem go_of_pass {n : Nat} {s s' : σ} (h : L.measure s < n + 1) (hb : L.body s = .inl s') :
    L.go (n + 1) s h
      = L.go n s' (Nat.lt_of_lt_of_le (L.decreases s s' hb) (Nat.le_of_lt_succ h)) := by
  rw [go]
  split
  · rename_i a hb'
    rw [hb] at hb'
    exact absurd hb' (by simp)
  rename_i s'' hb'
  rw [hb] at hb'
  cases hb'
  rfl

/-- The bound is only a bound: any two that admit the state give the same result. -/
theorem go_bound (L : Loop σ α) : ∀ (n m : Nat) (s : σ) (hn : L.measure s < n)
    (hm : L.measure s < m), L.go n s hn = L.go m s hm := by
  intro n
  induction n with
  | zero => intro m s hn; exact absurd hn (by omega)
  | succ n ih =>
    intro m s hn hm
    cases hb : L.body s with
    | inr a => rw [go_of_exit hn hb, go_of_exit hm hb]
    | inl s' =>
      cases m with
      | zero => exact absurd hm (by omega)
      | succ m =>
        rw [go_of_pass hn hb, go_of_pass hm hb]
        exact ih m s' _ _

theorem run_of_exit (hb : L.body s = .inr a) : L.run s = a := go_of_exit _ hb

theorem run_of_pass {s s' : σ} (hb : L.body s = .inl s') : L.run s = L.run s' := by
  rw [run, go_of_pass _ hb]
  exact go_bound L _ _ _ _ _

/-- **Induction along the passes**, relating the result to the state it came from. -/
theorem run_induct (L : Loop σ α) {motive : σ → α → Prop}
    (exit : ∀ s a, L.body s = .inr a → motive s a)
    (pass : ∀ s s', L.body s = .inl s' → motive s' (L.run s') → motive s (L.run s'))
    (s : σ) : motive s (L.run s) := by
  induction hm : L.measure s using Nat.strongRecOn generalizing s with
  | ind m ih =>
    cases hb : L.body s with
    | inr a => rw [run_of_exit hb]; exact exit s a hb
    | inl s' =>
      rw [run_of_pass hb]
      exact pass s s' hb (ih _ (hm ▸ L.decreases s s' hb) s' rfl)

/-- **The invariant rule.** What every pass keeps holds when the loop leaves. -/
theorem run_inv (L : Loop σ α) {P : σ → Prop} {Q : α → Prop}
    (pass : ∀ s s', P s → L.body s = .inl s' → P s')
    (exit : ∀ s a, P s → L.body s = .inr a → Q a) (h : P s) : Q (L.run s) := by
  refine L.run_induct (motive := fun s a => P s → Q a) ?_ ?_ s h
  · intro s a hb hp
    exact exit s a hp hb
  · intro s s' hb ih hp
    exact ih (pass s s' hp hb)

/-- `L.Passes n s a`: from `s` the loop makes exactly `n` passes and leaves with `a`. -/
inductive Passes (L : Loop σ α) : Nat → σ → α → Prop where
  | exit {s : σ} {a : α} : L.body s = .inr a → Passes L 1 s a
  | pass {n : Nat} {s s' : σ} {a : α} : L.body s = .inl s' → Passes L n s' a → Passes L (n + 1) s a

/-- **Every loop leaves**, after at most one pass more than its measure. -/
theorem exists_passes (L : Loop σ α) (s : σ) :
    ∃ n, n ≤ L.measure s + 1 ∧ L.Passes n s (L.run s) := by
  refine L.run_induct (motive := fun s a => ∃ n, n ≤ L.measure s + 1 ∧ L.Passes n s a) ?_ ?_ s
  · intro s a hb
    exact ⟨1, by omega, .exit hb⟩
  · intro s s' hb ih
    obtain ⟨n, hn, hp⟩ := ih
    have := L.decreases s s' hb
    exact ⟨n + 1, by omega, .pass hb hp⟩

/-! ## Loops whose pass can fail -/

variable {ε : Type} {pass : σ → Except ε (σ ⊕ α)}

/-- A failing pass leaves the loop with its error. -/
def tryPass (pass : σ → Except ε (σ ⊕ α)) (s : σ) : σ ⊕ Except ε α :=
  match pass s with
  | .error e => .inr (.error e)
  | .ok (.inl s') => .inl s'
  | .ok (.inr a) => .inr (.ok a)

theorem tryPass_inl {s s' : σ} : tryPass pass s = .inl s' ↔ pass s = .ok (.inl s') := by
  unfold tryPass
  split <;> simp_all

theorem tryPass_ok : tryPass pass s = .inr (.ok a) ↔ pass s = .ok (.inr a) := by
  unfold tryPass
  split <;> simp_all

theorem tryPass_error {e : ε} : tryPass pass s = .inr (.error e) ↔ pass s = .error e := by
  unfold tryPass
  split <;> simp_all

/-- The loop of a pass that can fail. -/
def fallible (pass : σ → Except ε (σ ⊕ α)) (measure : σ → Nat)
    (decreases : ∀ s s', pass s = .ok (.inl s') → measure s' < measure s) :
    Loop σ (Except ε α) where
  body := tryPass pass
  measure := measure
  decreases := fun s s' h => decreases s s' (tryPass_inl.mp h)

section Fallible

variable {pass : σ → Except ε (σ ⊕ α)} {measure : σ → Nat}
  {decreases : ∀ s s', pass s = .ok (.inl s') → measure s' < measure s} {s s' : σ}

theorem fallible_pass (h : pass s = .ok (.inl s')) :
    (fallible pass measure decreases).run s = (fallible pass measure decreases).run s' :=
  run_of_pass (tryPass_inl.mpr h)

theorem fallible_exit (h : pass s = .ok (.inr a)) :
    (fallible pass measure decreases).run s = .ok a :=
  run_of_exit (tryPass_ok.mpr h)

theorem fallible_error {e : ε} (h : pass s = .error e) :
    (fallible pass measure decreases).run s = .error e :=
  run_of_exit (tryPass_error.mpr h)

end Fallible

end Loop

end GtaClaw.Lib
