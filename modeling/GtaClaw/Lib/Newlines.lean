import Mathlib.Data.List.Basic

/-!
# Lines with three kinds of ends

A line ends at a line feed, at a carriage return, or at the two of them in a row,
which are one end and not two. `splitLines` cuts a whole sequence into its complete
lines and what stands behind the last of them; `after` is the same cut for a line
that has already begun.
-/

namespace GtaClaw.Lib

variable {α : Type}

/-- A sequence cut into lines. -/
structure Lines (α : Type) where
  complete : List (List α)
  /-- What stands behind the last end. -/
  unterminated : List α
  deriving DecidableEq, Repr

namespace Lines

/-- All the lines, the last one complete or not. -/
def all (lines : Lines α) : List (List α) := lines.complete ++ [lines.unterminated]

/-- The cut when the first line begins with `line`. -/
def after (line : List α) : Lines α → Lines α
  | ⟨[], unterminated⟩ => ⟨[], line ++ unterminated⟩
  | ⟨first :: rest, unterminated⟩ => ⟨(line ++ first) :: rest, unterminated⟩

def cons (line : List α) (lines : Lines α) : Lines α :=
  { lines with complete := line :: lines.complete }

@[simp] theorem after_nil (lines : Lines α) : lines.after [] = lines := by
  obtain ⟨complete, unterminated⟩ := lines
  cases complete <;> rfl

@[simp] theorem after_after (xs ys : List α) (lines : Lines α) :
    (lines.after ys).after xs = lines.after (xs ++ ys) := by
  obtain ⟨complete, unterminated⟩ := lines
  cases complete <;> simp [after]

theorem after_cons (xs ys : List α) (lines : Lines α) :
    (lines.cons ys).after xs = lines.cons (xs ++ ys) := rfl

theorem exists_mem_after (line : List α) (lines : Lines α) :
    ∃ x ∈ (lines.after line).all, line <+: x := by
  obtain ⟨complete, unterminated⟩ := lines
  cases complete with
  | nil => exact ⟨line ++ unterminated, by simp [after, all], List.prefix_append ..⟩
  | cons first rest => exact ⟨line ++ first, by simp [after, all], List.prefix_append ..⟩

end Lines

variable [DecidableEq α]

/-- Cut a sequence at every end of a line. -/
def splitLines (cr lf : α) : List α → Lines α
  | [] => ⟨[], []⟩
  | [a] => if a = cr ∨ a = lf then ⟨[[]], []⟩ else ⟨[], [a]⟩
  | a :: b :: rest =>
    if a = cr ∧ b = lf then (splitLines cr lf rest).cons []
    else if a = cr ∨ a = lf then (splitLines cr lf (b :: rest)).cons []
    else (splitLines cr lf (b :: rest)).after [a]

section

variable {cr lf : α}

theorem splitLines_crlf (rest : List α) :
    splitLines cr lf (cr :: lf :: rest) = (splitLines cr lf rest).cons [] := by
  rw [splitLines, if_pos ⟨rfl, rfl⟩]

theorem splitLines_lf (hne : cr ≠ lf) (rest : List α) :
    splitLines cr lf (lf :: rest) = (splitLines cr lf rest).cons [] := by
  cases rest with
  | nil => simp [splitLines, Lines.cons]
  | cons b rest => rw [splitLines, if_neg (fun h => hne h.1.symm), if_pos (.inr rfl)]

theorem splitLines_cr {rest : List α} (h : rest.head? ≠ some lf) :
    splitLines cr lf (cr :: rest) = (splitLines cr lf rest).cons [] := by
  cases rest with
  | nil => simp [splitLines, Lines.cons]
  | cons b rest =>
    have hb : b ≠ lf := fun heq => h (congrArg some heq)
    rw [splitLines, if_neg (fun h => hb h.2), if_pos (.inl rfl)]

theorem splitLines_other {a : α} (hcr : a ≠ cr) (hlf : a ≠ lf) (rest : List α) :
    splitLines cr lf (a :: rest) = (splitLines cr lf rest).after [a] := by
  cases rest with
  | nil => simp [splitLines, Lines.after, hcr, hlf]
  | cons b rest => rw [splitLines, if_neg (fun h => hcr h.1), if_neg (not_or.mpr ⟨hcr, hlf⟩)]

theorem splitLines_append_of_notMem {xs : List α} (hcr : cr ∉ xs) (hlf : lf ∉ xs) (ys : List α) :
    splitLines cr lf (xs ++ ys) = (splitLines cr lf ys).after xs := by
  induction xs with
  | nil => simp
  | cons x xs ih =>
    have hx : x ≠ cr := fun heq => hcr (heq ▸ List.mem_cons_self)
    have hx' : x ≠ lf := fun heq => hlf (heq ▸ List.mem_cons_self)
    have hxs := ih (fun hmem => hcr (List.mem_cons_of_mem _ hmem))
      (fun hmem => hlf (List.mem_cons_of_mem _ hmem))
    rw [List.cons_append, splitLines_other hx hx', hxs, Lines.after_after]
    rfl

/-- Every sequence is put together from ends of lines and other symbols. -/
theorem newline_induction (cr lf : α) {P : List α → Prop} (nil : P [])
    (crlf : ∀ rest, P rest → P (cr :: lf :: rest))
    (cr_alone : ∀ rest, rest.head? ≠ some lf → P rest → P (cr :: rest))
    (lf_alone : ∀ rest, P rest → P (lf :: rest))
    (other : ∀ a rest, a ≠ cr → a ≠ lf → P rest → P (a :: rest)) (xs : List α) : P xs := by
  induction h : xs.length using Nat.strongRecOn generalizing xs with
  | _ n ih =>
    subst h
    rcases xs with _ | ⟨a, rest⟩
    · exact nil
    have hrest : P rest := ih rest.length (by simp) rest rfl
    by_cases hcr : a = cr
    · subst hcr
      rcases rest with _ | ⟨b, rest⟩
      · exact cr_alone [] (by simp) hrest
      by_cases hb : b = lf
      · subst hb
        exact crlf rest (ih rest.length (by simp only [List.length_cons]; omega) rest rfl)
      · exact cr_alone (b :: rest) (by simpa using hb) hrest
    · by_cases hlf : a = lf
      · subst hlf
        exact lf_alone rest hrest
      · exact other a rest hcr hlf hrest

end

end GtaClaw.Lib
