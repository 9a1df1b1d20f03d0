import Mathlib.Data.List.Basic

/-!
# Machines that are fed one symbol at a time

A decoder takes a symbol, and either stops with an error or goes on in a new
state with some output. `feed` runs it over a list and keeps what it gave out
before the error: a list may then be cut anywhere (`feed_append`), which is what
a result about every chunking comes down to.
-/

namespace GtaClaw.Lib

variable {σ α β ε : Type}

/-- What the machine gives out, and where it ends up or why it stops. -/
def feed (step : σ → α → Except ε (σ × List β)) : σ → List α → List β × Except ε σ
  | s, [] => ([], .ok s)
  | s, a :: rest =>
    match step s a with
    | .error error => ([], .error error)
    | .ok (s', out) => (out ++ (feed step s' rest).1, (feed step s' rest).2)

section

variable {step : σ → α → Except ε (σ × List β)} {s s' : σ} {out : List β} {xs : List α} {a : α}

@[simp] theorem feed_nil (s : σ) : feed step s [] = ([], .ok s) := rfl

theorem feed_error {error : ε} (h : step s a = .error error) (rest : List α) :
    feed step s (a :: rest) = ([], .error error) := by
  rw [feed, h]

theorem feed_ok (h : step s a = .ok (s', out)) (rest : List α) :
    feed step s (a :: rest) = (out ++ (feed step s' rest).1, (feed step s' rest).2) := by
  rw [feed, h]

theorem feed_silent (h : step s a = .ok (s', [])) (rest : List α) :
    feed step s (a :: rest) = feed step s' rest := feed_ok h rest

/-- Only the first step reads the state, so states that answer alike run alike. -/
theorem feed_congr {s t : σ} (h : step s a = step t a) (rest : List α) :
    feed step s (a :: rest) = feed step t (a :: rest) := by
  rw [feed, feed, h]

theorem feed_append (s : σ) (xs ys : List α) :
    feed step s (xs ++ ys) = match feed step s xs with
      | (out, .ok s') => (out ++ (feed step s' ys).1, (feed step s' ys).2)
      | (out, .error error) => (out, .error error) := by
  induction xs generalizing s with
  | nil => rfl
  | cons a xs ih =>
    rw [List.cons_append]
    cases ha : step s a with
    | error error => rw [feed_error ha, feed_error ha]
    | ok p =>
      rw [feed_ok ha, feed_ok ha, ih]
      rcases feed step p.1 xs with ⟨out, _ | s'⟩
      · rfl
      · simp only [List.append_assoc]

theorem feed_inv {I : σ → Prop} (hstep : ∀ {s a s' out}, I s → step s a = .ok (s', out) → I s')
    (hs : I s) (h : (feed step s xs).2 = .ok s') : I s' := by
  induction xs generalizing s with
  | nil =>
    cases h
    exact hs
  | cons a xs ih =>
    cases ha : step s a with
    | error error =>
      rw [feed_error ha] at h
      cases h
    | ok p =>
      rw [feed_ok ha] at h
      exact ih (hstep hs ha) h

end

end GtaClaw.Lib
