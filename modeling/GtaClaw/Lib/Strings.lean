import Mathlib.Data.List.Basic

/-!
# Names made of parts

Names that are put together from a fixed beginning, a part and a last part behind a
separator, and are taken apart again. `List.isPrefixOf?` takes off the beginning;
`rsplitOnce` cuts at the last separator.
-/

namespace GtaClaw.Lib

open List

theorem isPrefixOf?_append {α : Type} [DecidableEq α] (xs ys : List α) :
    xs.isPrefixOf? (xs ++ ys) = some ys := by
  induction xs with
  | nil => rfl
  | cons x xs ih =>
    rw [cons_append, isPrefixOf?, if_pos (beq_self_eq_true x)]
    exact ih

theorem eq_append_of_isPrefixOf? {α : Type} [DecidableEq α] :
    ∀ {xs text rest : List α}, xs.isPrefixOf? text = some rest → text = xs ++ rest
  | [], _, _, h => Option.some.inj h
  | _ :: _, [], _, h => by cases h
  | x :: xs, y :: text, rest, h => by
    rw [isPrefixOf?] at h
    split at h
    · rename_i heq
      rw [← eq_of_beq heq, cons_append, eq_append_of_isPrefixOf? h]
    · cases h

/-- Two texts that are read up to their first marks. -/
theorem append_mark_inj {α : Type} {mark : α → Prop} {xs ys as bs : List α} {a b : α}
    (hxs : ∀ x ∈ xs, ¬mark x) (hys : ∀ y ∈ ys, ¬mark y) (ha : mark a) (hb : mark b)
    (h : xs ++ a :: as = ys ++ b :: bs) : xs = ys ∧ a = b ∧ as = bs := by
  rcases append_eq_append_iff.mp h with ⟨ms, rfl, hms⟩ | ⟨ms, rfl, hms⟩
  all_goals
    cases ms with
    | nil => simp_all
    | cons m ms =>
      obtain ⟨rfl, -⟩ := cons.inj hms
      simp_all

/-- `str::rsplit_once`. -/
def rsplitOnce {α : Type} [DecidableEq α] (separator : α) : List α → Option (List α × List α)
  | [] => none
  | x :: rest =>
    match rsplitOnce separator rest with
    | some (before, last) => some (x :: before, last)
    | none => if x = separator then some ([], rest) else none

section Split

variable {α : Type} [DecidableEq α] {separator : α}

theorem rsplitOnce_of_notMem : ∀ {last : List α}, separator ∉ last → rsplitOnce separator last = none
  | [], _ => rfl
  | x :: last, h => by
    have hx : x ≠ separator := fun heq => h (heq ▸ mem_cons_self)
    have hlast : separator ∉ last := fun hmem => h (mem_cons_of_mem _ hmem)
    rw [rsplitOnce, rsplitOnce_of_notMem hlast]
    exact if_neg hx

theorem rsplitOnce_append {last : List α} (h : separator ∉ last) :
    ∀ before : List α, rsplitOnce separator (before ++ separator :: last) = some (before, last)
  | [] => by
    rw [nil_append, rsplitOnce, rsplitOnce_of_notMem h]
    exact if_pos rfl
  | x :: before => by rw [cons_append, rsplitOnce, rsplitOnce_append h before]

end Split

/-- `str::split_once` with a pattern of any length. -/
def splitOnce {α : Type} [DecidableEq α] (pattern : List α) : List α → Option (List α × List α)
  | [] => if pattern.isEmpty then some ([], []) else none
  | x :: rest =>
    match pattern.isPrefixOf? (x :: rest) with
    | some behind => some ([], behind)
    | none => (splitOnce pattern rest).map fun cut => (x :: cut.1, cut.2)

section Once

variable {α : Type} [DecidableEq α] {mark : α} {pattern : List α}

/-- The pattern is found where its first symbol occurs for the first time. -/
theorem splitOnce_append {before : List α} (h : mark ∉ before) (behind : List α) :
    splitOnce (mark :: pattern) (before ++ mark :: (pattern ++ behind)) = some (before, behind) := by
  induction before with
  | nil =>
    rw [nil_append, splitOnce]
    rw [show mark :: (pattern ++ behind) = (mark :: pattern) ++ behind from rfl,
      isPrefixOf?_append]
  | cons x before ih =>
    have hx : mark ≠ x := fun heq => h (heq ▸ mem_cons_self)
    have hrest := ih (fun hmem => h (mem_cons_of_mem _ hmem))
    rw [cons_append, splitOnce, isPrefixOf?, if_neg (by simpa using hx), hrest]
    rfl

theorem splitOnce_of_notMem {text : List α} (h : mark ∉ text) :
    splitOnce (mark :: pattern) text = none := by
  induction text with
  | nil => rfl
  | cons x text ih =>
    have hx : mark ≠ x := fun heq => h (heq ▸ mem_cons_self)
    have hrest := ih (fun hmem => h (mem_cons_of_mem _ hmem))
    rw [splitOnce, isPrefixOf?, if_neg (by simpa using hx), hrest]
    rfl

end Once

section Pieces

variable {α : Type} {p : α → Bool}

theorem eq_false_of_mem_splitOnP {xs piece : List α} (h : piece ∈ xs.splitOnP p) :
    ∀ x ∈ piece, p x = false := by
  induction xs generalizing piece with
  | nil =>
    rw [splitOnP_nil, mem_singleton] at h
    simp [h]
  | cons x xs ih =>
    rw [splitOnP_cons_eq_if_modifyHead] at h
    split_ifs at h with hx
    · rcases mem_cons.mp h with rfl | hmem
      · simp
      · exact ih hmem
    rcases hpieces : xs.splitOnP p with _ | ⟨first, rest⟩
    · exact absurd hpieces (splitOnP_ne_nil _ _)
    rw [hpieces] at h
    rcases mem_cons.mp h with rfl | hmem
    · intro y hy
      rcases mem_cons.mp hy with rfl | hy
      · simpa using hx
      · exact ih (hpieces ▸ mem_cons_self) y hy
    · exact ih (hpieces ▸ mem_cons_of_mem _ hmem)

/-- A first piece that is not empty begins as the sequence does. -/
theorem head?_of_splitOnP_cons {xs first : List α} {rest : List (List α)}
    (h : xs.splitOnP p = first :: rest) (hne : first ≠ []) : first.head? = xs.head? := by
  cases xs with
  | nil =>
    cases h
    exact absurd rfl hne
  | cons x xs =>
    rw [splitOnP_cons_eq_if_modifyHead] at h
    split at h
    · cases h
      exact absurd rfl hne
    rcases hpieces : xs.splitOnP p with _ | ⟨next, others⟩
    · exact absurd hpieces (splitOnP_ne_nil _ _)
    rw [hpieces] at h
    cases h
    rfl

theorem splitOnP_intercalate {sep : α} (hsep : p sep = true) {pieces : List (List α)}
    (hne : pieces ≠ []) (hpieces : ∀ piece ∈ pieces, ∀ x ∈ piece, p x = false) :
    ([sep].intercalate pieces).splitOnP p = pieces := by
  induction pieces with
  | nil => exact absurd rfl hne
  | cons first rest ih =>
    have hfirst := hpieces first mem_cons_self
    cases rest with
    | nil => rw [intercalate_singleton, splitOnP_eq_singleton hfirst]
    | cons next rest =>
      have hrest := ih (by simp) (forall_mem_cons.mp hpieces).2
      rw [intercalate_cons_cons, append_assoc, singleton_append,
        splitOnP_append_cons_of_forall_mem hfirst sep hsep, hrest]

end Pieces

end GtaClaw.Lib
