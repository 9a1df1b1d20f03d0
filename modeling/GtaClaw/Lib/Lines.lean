import Mathlib.Tactic
import Mathlib.Data.List.TakeWhile

/-!
# Reading line by line

A line reader folds a step function over the lines of a sequence, one symbol at
a time: the symbols of the current line are held back until its separator comes,
and only then does the state move. Reading is a left fold, so a sequence can be
cut anywhere and read on from where the reader stands.

`Agree` compares two readers in front of one rest. Once they agree on the line
they are in, and the states behind it are related, they agree for good
(`Agree.read`).

The reader that only collects gives the complete lines of a sequence and the
residue behind the last of them. `unread n` is what is left once `n` lines have
been dealt with.
-/

namespace GtaClaw.Lib

variable {σ α β : Type} [DecidableEq α] {xs : List α}

/-- The sequence up to the first separator. -/
def firstLine (sep : α) (xs : List α) : List α := xs.takeWhile (· ≠ sep)

theorem firstLine_append {sep : α} (h : sep ∉ xs) (ys : List α) :
    firstLine sep (xs ++ ys) = xs ++ firstLine sep ys := by
  refine List.takeWhile_append_of_pos (fun a ha => ?_)
  simp only [decide_eq_true_eq]
  rintro rfl
  exact h ha

theorem firstLine_sep (sep : α) (xs ys : List α) (h : sep ∉ xs) :
    firstLine sep (xs ++ sep :: ys) = xs := by
  rw [firstLine_append h]
  simp [firstLine]

/-- Where a line reader stands. -/
structure Cursor (σ α : Type) where
  /-- The state behind the lines that are complete. -/
  state : σ
  /-- The current line, as far as it has been read. -/
  line : List α

namespace Cursor

variable (step : σ → List α → σ) (sep : α)

def feed (c : Cursor σ α) (a : α) : Cursor σ α :=
  if a = sep then ⟨step c.state c.line, []⟩ else ⟨c.state, c.line ++ [a]⟩

def read (c : Cursor σ α) (xs : List α) : Cursor σ α := xs.foldl (feed step sep) c

@[simp] theorem read_nil (c : Cursor σ α) : c.read step sep [] = c := rfl

theorem read_append (c : Cursor σ α) (xs ys : List α) :
    c.read step sep (xs ++ ys) = (c.read step sep xs).read step sep ys :=
  List.foldl_append

theorem read_sep (c : Cursor σ α) (xs : List α) :
    c.read step sep (sep :: xs) = read step sep ⟨step c.state c.line, []⟩ xs := by
  rw [read, List.foldl_cons, feed, if_pos rfl, read]

theorem read_of_ne {a : α} (h : a ≠ sep) (c : Cursor σ α) (xs : List α) :
    c.read step sep (a :: xs) = read step sep ⟨c.state, c.line ++ [a]⟩ xs := by
  rw [read, List.foldl_cons, feed, if_neg h, read]

theorem read_of_notMem (h : sep ∉ xs) (c : Cursor σ α) :
    c.read step sep xs = ⟨c.state, c.line ++ xs⟩ := by
  induction xs generalizing c with
  | nil => rw [read_nil, List.append_nil]
  | cons a xs ih =>
    have ha : a ≠ sep := fun heq => h (heq ▸ List.mem_cons_self ..)
    rw [read_of_ne step sep ha, ih (fun hm => h (List.mem_cons_of_mem _ hm)), List.append_assoc]
    rfl

theorem read_line {line : List α} (h : sep ∉ line) (c : Cursor σ α) (rest : List α) :
    c.read step sep (line ++ sep :: rest)
      = read step sep ⟨step c.state (c.line ++ line), []⟩ rest := by
  rw [read_append, read_of_notMem step sep h, read_sep]

theorem read_line_notMem {c : Cursor σ α} (h : sep ∉ c.line) (xs : List α) :
    sep ∉ (c.read step sep xs).line := by
  induction xs generalizing c with
  | nil => exact h
  | cons a xs ih =>
    refine ih ?_
    unfold feed
    split_ifs with ha
    · exact List.not_mem_nil
    intro hm
    rcases List.mem_append.mp hm with hm | hm
    · exact h hm
    · exact ha (List.mem_singleton.mp hm).symm

/-! ## Two readers in front of one rest -/

variable (view : σ → List α → β) (R : σ → σ → Prop)

/-- The two readers see the line they are in alike and leave it in related states. -/
def Agree (c d : Cursor σ α) (rest : List α) : Prop :=
  view c.state (c.line ++ firstLine sep rest) = view d.state (d.line ++ firstLine sep rest)
    ∧ R (step c.state (c.line ++ firstLine sep rest)) (step d.state (d.line ++ firstLine sep rest))

variable {step sep view R}

theorem Agree.trans {c d e : Cursor σ α} {rest : List α} (hR : ∀ {a b c}, R a b → R b c → R a c)
    (h₁ : Agree step sep view R c d rest) (h₂ : Agree step sep view R d e rest) :
    Agree step sep view R c e rest :=
  ⟨h₁.1.trans h₂.1, hR h₁.2 h₂.2⟩

section

variable
  (hstep : ∀ {s t}, R s t → ∀ line, view s line = view t line ∧ R (step s line) (step t line))
include hstep

theorem read_related :
    ∀ (xs : List α) {c d : Cursor σ α}, R c.state d.state → c.line = d.line →
      R (c.read step sep xs).state (d.read step sep xs).state
        ∧ (c.read step sep xs).line = (d.read step sep xs).line
  | [], _, _, h, hl => ⟨h, hl⟩
  | a :: xs, c, d, h, hl => by
    by_cases ha : a = sep
    · refine read_related xs ?_ ?_
      · rw [feed, feed, if_pos ha, if_pos ha, hl]
        exact (hstep h _).2
      · rw [feed, feed, if_pos ha, if_pos ha]
    · refine read_related xs ?_ ?_
      · rw [feed, feed, if_neg ha, if_neg ha]
        exact h
      · rw [feed, feed, if_neg ha, if_neg ha, hl]

/-- **Readers that agree keep agreeing.** -/
theorem Agree.read
    {c d : Cursor σ α} {xs rest : List α} (h : Agree step sep view R c d (xs ++ rest)) :
    Agree step sep view R (c.read step sep xs) (d.read step sep xs) rest := by
  by_cases hm : sep ∈ xs
  · -- a line ends inside `xs`: the states behind it are related
    obtain ⟨line, xs, rfl, hline⟩ := List.eq_append_cons_of_mem hm
    have hfirst : firstLine sep (line ++ sep :: xs ++ rest) = line := by
      rw [List.append_assoc, List.cons_append, firstLine_sep sep line _ hline]
    rw [Agree, hfirst] at h
    rw [read_line step sep hline, read_line step sep hline]
    obtain ⟨hs, hl⟩ := read_related hstep xs
      (c := ⟨step c.state (c.line ++ line), []⟩) (d := ⟨step d.state (d.line ++ line), []⟩) h.2 rfl
    rw [Agree, hl]
    exact hstep hs _
  · -- still the same line
    rw [Agree, firstLine_append hm] at h
    rw [read_of_notMem step sep hm, read_of_notMem step sep hm]
    simpa only [Agree, List.append_assoc] using h

end

end Cursor

/-! ## Complete lines -/

section Collect

variable (sep : α)

/-- The lines that have their separator. -/
def completeLines (xs : List α) : List (List α) :=
  (Cursor.read (fun lines line => lines ++ [line]) sep ⟨[], []⟩ xs).state

/-- What stands behind the last separator. -/
def residue (xs : List α) : List α :=
  (Cursor.read (fun lines line => lines ++ [line]) sep ⟨([] : List (List α)), []⟩ xs).line

/-- What stands behind the first separator. -/
def afterLine (xs : List α) : List α := (xs.dropWhile (· ≠ sep)).tail

/-- What stands behind the first `n` lines. -/
def unread : Nat → List α → List α
  | 0, xs => xs
  | n + 1, xs => unread n (afterLine sep xs)

/-- **Induction on lines**: a sequence is a residue, or a line and what follows it. -/
theorem lines_induction {P : List α → Prop} (residue : ∀ xs, sep ∉ xs → P xs)
    (line : ∀ l xs, sep ∉ l → P xs → P (l ++ sep :: xs)) (xs : List α) : P xs := by
  induction hn : xs.length using Nat.strongRecOn generalizing xs with
  | ind n ih =>
    by_cases hm : sep ∈ xs
    · obtain ⟨l, rest, rfl, hl⟩ := List.eq_append_cons_of_mem hm
      refine line l rest hl (ih rest.length ?_ rest rfl)
      rw [← hn, List.length_append, List.length_cons]
      omega
    · exact residue xs hm

variable {sep} {l : List α}

open Cursor List

theorem collect_shift (lines : List (List α)) (line xs : List α) :
    read (fun lines line => lines ++ [line]) sep ⟨lines, line⟩ xs
      = ⟨lines ++ (read (fun lines line => lines ++ [line]) sep ⟨[], line⟩ xs).state,
        (read (fun lines line => lines ++ [line]) sep ⟨([] : List (List α)), line⟩ xs).line⟩ := by
  induction xs generalizing lines line with
  | nil => simp
  | cons a xs ih =>
    by_cases ha : a = sep
    · subst ha
      rw [read_sep, read_sep, ih (lines ++ [line]), ih ([] ++ [line]),
        append_assoc]
      rfl
    · rw [read_of_ne _ _ ha, read_of_ne _ _ ha]
      exact ih _ _

theorem completeLines_of_notMem (h : sep ∉ xs) : completeLines sep xs = [] := by
  rw [completeLines, read_of_notMem _ _ h]

theorem residue_of_notMem (h : sep ∉ xs) : residue sep xs = xs := by
  rw [residue, read_of_notMem _ _ h, nil_append]

theorem completeLines_line (h : sep ∉ l) (xs : List α) :
    completeLines sep (l ++ sep :: xs) = l :: completeLines sep xs := by
  rw [completeLines, read_line _ _ h, collect_shift]
  rfl

theorem residue_line (h : sep ∉ l) (xs : List α) :
    residue sep (l ++ sep :: xs) = residue sep xs := by
  rw [residue, read_line _ _ h, collect_shift]
  rfl

theorem afterLine_line (h : sep ∉ l) (xs : List α) : afterLine sep (l ++ sep :: xs) = xs := by
  have hdrop : (l ++ sep :: xs).dropWhile (· ≠ sep) = sep :: xs := by
    rw [dropWhile_append_of_pos, dropWhile_cons_of_neg (by simp)]
    intro a ha
    simp only [decide_eq_true_eq]
    rintro rfl
    exact h ha
  rw [afterLine, hdrop, tail_cons]

theorem residue_notMem (xs : List α) : sep ∉ residue sep xs := read_line_notMem _ _ not_mem_nil xs

/-- What follows completes the residue and leaves the lines before it alone. -/
theorem completeLines_append (xs ys : List α) : completeLines sep (xs ++ ys)
    = completeLines sep xs ++ completeLines sep (residue sep xs ++ ys) := by
  induction xs using lines_induction sep with
  | residue xs h => rw [completeLines_of_notMem h, residue_of_notMem h, nil_append]
  | line l xs hl ih =>
    rw [append_assoc, cons_append, completeLines_line hl, completeLines_line hl,
      residue_line hl, ih]
    rfl

theorem residue_append (xs ys : List α) :
    residue sep (xs ++ ys) = residue sep (residue sep xs ++ ys) := by
  induction xs using lines_induction sep with
  | residue xs h => rw [residue_of_notMem h]
  | line l xs hl ih => rw [append_assoc, cons_append, residue_line hl, residue_line hl, ih]

theorem append_of_notMem (xs : List α) {ys : List α} (h : sep ∉ ys) :
    completeLines sep (xs ++ ys) = completeLines sep xs
      ∧ residue sep (xs ++ ys) = residue sep xs ++ ys := by
  have hclear := not_mem_append (residue_notMem xs) h
  rw [completeLines_append, residue_append, completeLines_of_notMem hclear, append_nil,
    residue_of_notMem hclear]
  exact ⟨rfl, rfl⟩

/-- The first separator completes the line that the residue began. -/
theorem completeLines_append_line (xs : List α) {ys : List α} (h : sep ∉ ys) (zs : List α) :
    completeLines sep (xs ++ (ys ++ sep :: zs))
      = completeLines sep xs ++ (residue sep xs ++ ys) :: completeLines sep zs := by
  have hclear := not_mem_append (residue_notMem xs) h
  rw [completeLines_append, ← append_assoc, completeLines_line hclear]

theorem unread_add (m n : Nat) (xs : List α) :
    unread sep (m + n) xs = unread sep n (unread sep m xs) := by
  induction m generalizing xs with
  | zero => rw [Nat.zero_add]; rfl
  | succ m ih =>
    rw [Nat.succ_add]
    exact ih (afterLine sep xs)

theorem completeLines_unread (n : Nat) (xs : List α) (h : n ≤ (completeLines sep xs).length) :
    completeLines sep (unread sep n xs) = (completeLines sep xs).drop n
      ∧ residue sep (unread sep n xs) = residue sep xs := by
  induction xs using lines_induction sep generalizing n with
  | residue xs hm =>
    rw [completeLines_of_notMem hm, length_nil, Nat.le_zero] at h
    rw [h, completeLines_of_notMem hm]
    exact ⟨completeLines_of_notMem hm, rfl⟩
  | line l xs hl ih =>
    cases n with
    | zero => exact ⟨rfl, rfl⟩
    | succ n =>
      rw [completeLines_line hl] at h
      rw [unread, afterLine_line hl, completeLines_line hl, residue_line hl,
        drop_succ_cons]
      exact ih n (Nat.le_of_succ_le_succ h)

theorem unread_append (n : Nat) (xs ys : List α) (h : n ≤ (completeLines sep xs).length) :
    unread sep n (xs ++ ys) = unread sep n xs ++ ys := by
  induction xs using lines_induction sep generalizing n with
  | residue xs hm =>
    rw [completeLines_of_notMem hm, length_nil, Nat.le_zero] at h
    rw [h]
    rfl
  | line l xs hl ih =>
    cases n with
    | zero => rfl
    | succ n =>
      rw [completeLines_line hl] at h
      rw [append_assoc, cons_append, unread, unread, afterLine_line hl,
        afterLine_line hl]
      exact ih n (Nat.le_of_succ_le_succ h)

theorem unread_all (xs : List α) :
    unread sep (completeLines sep xs).length xs = residue sep xs := by
  induction xs using lines_induction sep with
  | residue xs h => rw [completeLines_of_notMem h, residue_of_notMem h]; rfl
  | line l xs hl ih =>
    rw [completeLines_line hl, residue_line hl, length_cons, unread, afterLine_line hl, ih]

theorem completeLines_notMem {xs line : List α} (h : line ∈ completeLines sep xs) : sep ∉ line := by
  induction xs using lines_induction sep with
  | residue xs hxs =>
    rw [completeLines_of_notMem hxs] at h
    cases h
  | line l xs hl ih =>
    rw [completeLines_line hl] at h
    rcases mem_cons.mp h with rfl | hmem
    · exact hl
    · exact ih hmem

/-! ## Lines with their separators -/

theorem splitOn_eq (xs : List α) : xs.splitOn sep = completeLines sep xs ++ [residue sep xs] := by
  induction xs using lines_induction sep with
  | residue xs h =>
    rw [completeLines_of_notMem h, residue_of_notMem h, splitOn_eq_singleton h]
    rfl
  | line l xs hl ih =>
    rw [splitOn_append_cons_self_of_not_mem hl, completeLines_line hl, residue_line hl, ih]
    rfl

theorem notMem_of_mem_splitOn {xs line : List α} (h : line ∈ xs.splitOn sep) : sep ∉ line := by
  rw [splitOn_eq, mem_append, mem_singleton] at h
  rcases h with h | rfl
  · exact completeLines_notMem h
  · exact residue_notMem xs

theorem getLast?_eq_sep_iff (hne : xs ≠ []) : xs.getLast? = some sep ↔ residue sep xs = [] := by
  induction xs using lines_induction sep with
  | residue xs h =>
    rw [residue_of_notMem h]
    refine iff_of_false (fun hlast => h (mem_of_getLast? hlast)) hne
  | line l xs hl ih =>
    rw [residue_line hl, getLast?_append, getLast?_cons]
    rcases eq_or_ne xs [] with rfl | hxs
    · rw [residue_of_notMem not_mem_nil]
      simp
    rw [← ih hxs]
    cases hlast : xs.getLast? with
    | none => exact absurd (getLast?_eq_none_iff.mp hlast) hxs
    | some a => simp

variable (sep) in
/-- `split_inclusive`: the lines with their separators, and a last line without one. -/
def splitInclusive (xs : List α) : List (List α) :=
  (completeLines sep xs).map (· ++ [sep]) ++
    if residue sep xs = [] then [] else [residue sep xs]

theorem splitInclusive_line (h : sep ∉ l) (xs : List α) :
    splitInclusive sep (l ++ sep :: xs) = (l ++ [sep]) :: splitInclusive sep xs := by
  rw [splitInclusive, completeLines_line h, residue_line h]
  rfl

theorem splitInclusive_of_notMem (h : sep ∉ xs) (hne : xs ≠ []) : splitInclusive sep xs = [xs] := by
  rw [splitInclusive, completeLines_of_notMem h, residue_of_notMem h, if_neg hne]
  rfl

theorem flatten_splitInclusive (xs : List α) : (splitInclusive sep xs).flatten = xs := by
  induction xs using lines_induction sep with
  | residue xs h =>
    rcases eq_or_ne xs [] with rfl | hne
    · rfl
    · rw [splitInclusive_of_notMem h hne, flatten_singleton]
  | line l xs hl ih =>
    rw [splitInclusive_line hl, flatten_cons, ih, append_assoc]
    rfl

end Collect

end GtaClaw.Lib
