import GtaClaw.Lib.Lines
import GtaClaw.Tools.Patch

/-!
# What a patch does to the lines of a file

`Cut n hunks old new` says how `hunks` turn the lines `old`, which begin at line `n` of the
file, into `new`: the lines between two hunks are copied, those of a hunk are exchanged.
`apply` succeeds exactly if the file can be cut that way (`applyHunks_iff`).
-/

namespace GtaClaw.Tools

open Channel (Text)
open Lib

/-- The first line of a hunk, counted from zero. -/
def Hunk.start (hunk : Hunk) : Nat := hunk.oldStart - 1

inductive Cut : Nat → List Hunk → List Text → List Text → Prop where
  | rest (n : Nat) (lines : List Text) : Cut n [] lines lines
  | hunk {n : Nat} {gap old new : List Text} {hunk : Hunk} {hunks : List Hunk}
      (at_start : hunk.oldStart = n + gap.length + 1)
      (behind : Cut (n + gap.length + hunk.oldLines.length) hunks old new) :
      Cut n (hunk :: hunks) (gap ++ (hunk.oldLines ++ old)) (gap ++ (hunk.newLines ++ new))

open HunkLine

open List

/-- One entry: what it expects is the next line. -/
theorem entry_iff (lines output : List Text) (cursor : Nat) (entry : HunkLine) (s : Applying) :
    Applying.entry lines ⟨output, cursor⟩ entry = .ok s ↔
      entry.old?.toList <+: lines.drop cursor ∧
        s = ⟨output ++ entry.new?.toList, cursor + entry.old?.toList.length⟩ := by
  have hnext : ∀ text, [text] <+: lines.drop cursor ↔ lines[cursor]? = some text := by
    intro text
    rw [← head?_drop]
    cases lines.drop cursor with
    | nil => simp
    | cons head tail => simp [eq_comm]
  cases entry with
  | added text => simp [Applying.entry, old?, new?, eq_comm]
  | removed text | context text =>
    cases hline : lines[cursor]? with
    | none => simp [Applying.entry, old?, hnext, hline]
    | some actual =>
      by_cases hactual : actual = text
      · simp [Applying.entry, old?, new?, hnext, hline, hactual, eq_comm]
      · simp [Applying.entry, old?, hnext, hline, hactual]

/-- A whole body: the lines it expects are the next ones. -/
theorem body_iff (lines : List Text) (body : List HunkLine) (output : List Text) (cursor : Nat)
    (s : Applying) :
    body.foldlM (Applying.entry lines) ⟨output, cursor⟩ = .ok s ↔
      body.filterMap old? <+: lines.drop cursor ∧
        s = ⟨output ++ body.filterMap new?,
          cursor + (body.filterMap old?).length⟩ := by
  induction body generalizing output cursor with
  | nil => simp [pure, Except.pure, eq_comm]
  | cons entry body ih =>
    have hold : (entry :: body).filterMap old? =
        entry.old?.toList ++ body.filterMap old? := by
      cases h : entry.old? <;> simp [h]
    have hnew : (entry :: body).filterMap new? =
        entry.new?.toList ++ body.filterMap new? := by
      cases h : entry.new? <;> simp [h]
    rw [foldlM_cons, hold, hnew]
    constructor
    · intro h
      obtain ⟨mid, hmid, hrest⟩ := bind_ok h
      obtain ⟨hfirst, rfl⟩ := (entry_iff ..).mp hmid
      obtain ⟨hbody, rfl⟩ := (ih ..).mp hrest
      obtain ⟨tail, htail⟩ := hfirst
      rw [← drop_drop, ← htail, drop_left] at hbody
      refine ⟨?_, ?_⟩
      · rw [← htail]
        exact (prefix_append_right_inj _).mpr hbody
      · simp [Nat.add_assoc]
    · rintro ⟨hall, rfl⟩
      have hfirst : entry.old?.toList <+: lines.drop cursor := (prefix_append ..).trans hall
      have hstep := (entry_iff lines output cursor entry _).mpr ⟨hfirst, rfl⟩
      obtain ⟨tail, htail⟩ := hfirst
      rw [← htail] at hall
      have hbody : body.filterMap old? <+:
          lines.drop (cursor + entry.old?.toList.length) := by
        rw [← drop_drop, ← htail, drop_left]
        exact (prefix_append_right_inj _).mp hall
      rw [hstep]
      refine ((ih ..).mpr ⟨hbody, ?_⟩)
      simp [Nat.add_assoc]

/-- One hunk: it starts behind the cursor and inside the file, and finds its lines there. -/
theorem hunk_iff (lines output : List Text) (cursor : Nat) (hunk : Hunk) (s : Applying)
    (hcursor : cursor ≤ lines.length) :
    Applying.hunk lines ⟨output, cursor⟩ hunk = .ok s ↔
      ∃ gap old, lines.drop cursor = gap ++ (hunk.oldLines ++ old) ∧
        hunk.oldStart = cursor + gap.length + 1 ∧
        s = ⟨output ++ gap ++ hunk.newLines,
          cursor + gap.length + hunk.oldLines.length⟩ := by
  unfold Applying.hunk
  dsimp only
  split
  · rename_i hzero
    simp [hzero]
  split
  · refine iff_of_false (by simp) ?_
    rintro ⟨gap, old, -, hstart, -⟩
    omega
  split
  · refine iff_of_false (by simp) ?_
    rintro ⟨gap, old, hlines, hstart, -⟩
    have hlength := congrArg length hlines
    simp only [length_drop, length_append] at hlength
    omega
  rw [body_iff]
  have hgap : ((lines.take (hunk.oldStart - 1)).drop cursor).length =
      hunk.oldStart - 1 - cursor := by
    rw [length_drop, length_take]
    omega
  have hsplit : lines.drop cursor =
      (lines.take (hunk.oldStart - 1)).drop cursor ++ lines.drop (hunk.oldStart - 1) := by
    rw [drop_take]
    conv_lhs => rw [← take_append_drop (hunk.oldStart - 1 - cursor) (lines.drop cursor)]
    rw [drop_drop]
    congr 2
    omega
  constructor
  · rintro ⟨⟨old, hold⟩, rfl⟩
    refine ⟨(lines.take (hunk.oldStart - 1)).drop cursor, old, ?_, ?_, ?_⟩
    · rw [hsplit, ← hold]
      rfl
    · omega
    · rw [Hunk.oldLines]
      congr 1
      omega
  · rintro ⟨gap, old, hlines, hstart, rfl⟩
    have hlen : gap.length = hunk.oldStart - 1 - cursor := by omega
    obtain ⟨hgapeq, hrest⟩ := append_inj (hsplit.symm.trans hlines) (by rw [hgap, hlen])
    refine ⟨⟨old, hrest.symm⟩, ?_⟩
    rw [hgapeq, Hunk.oldLines]
    congr 1
    omega

/-- `apply` succeeds exactly if the file can be cut at the hunks. -/
theorem hunks_iff (lines : List Text) (hunks : List Hunk) (output result : List Text) (cursor : Nat)
    (hcursor : cursor ≤ lines.length) :
    (∃ s, hunks.foldlM (Applying.hunk lines) ⟨output, cursor⟩ = .ok s ∧
      s.output ++ lines.drop s.cursor = result) ↔
      ∃ new, Cut cursor hunks (lines.drop cursor) new ∧ result = output ++ new := by
  induction hunks generalizing output cursor with
  | nil =>
    constructor
    · rintro ⟨s, hs, rfl⟩
      cases hs
      exact ⟨_, .rest .., rfl⟩
    · rintro ⟨new, hcut, rfl⟩
      cases hcut
      exact ⟨_, rfl, rfl⟩
  | cons hunk hunks ih =>
    -- Behind the hunk the file goes on with what the cut leaves.
    have hbehind : ∀ {gap old : List Text},
        lines.drop cursor = gap ++ (hunk.oldLines ++ old) →
        cursor + gap.length + hunk.oldLines.length ≤ lines.length ∧
          lines.drop (cursor + gap.length + hunk.oldLines.length) = old := by
      intro gap old hlines
      have hlength := congrArg length hlines
      simp only [length_drop, length_append] at hlength
      refine ⟨by omega, ?_⟩
      rw [Nat.add_assoc, ← drop_drop, hlines, ← drop_drop, drop_left,
        drop_left]
    rw [foldlM_cons]
    constructor
    · rintro ⟨s, hs, hresult⟩
      obtain ⟨mid, hmid, hrest⟩ := bind_ok hs
      obtain ⟨gap, old, hlines, hstart, rfl⟩ := (hunk_iff _ _ _ _ _ hcursor).mp hmid
      obtain ⟨hle, hdrop⟩ := hbehind hlines
      obtain ⟨new, hcut, rfl⟩ := (ih _ _ hle).mp ⟨s, hrest, hresult⟩
      rw [hdrop] at hcut
      rw [hlines]
      exact ⟨_, .hunk hstart hcut, by simp⟩
    · rintro ⟨new, hcut, rfl⟩
      generalize hlines : lines.drop cursor = rest at hcut
      cases hcut with
      | @hunk _ gap old new _ _ hstart hcut =>
        obtain ⟨hle, hdrop⟩ := hbehind hlines
        rw [← hdrop] at hcut
        have hnew : output ++ (gap ++ (hunk.newLines ++ new)) =
            output ++ gap ++ hunk.newLines ++ new := by simp
        obtain ⟨s, hs, hresult⟩ := (ih _ _ hle).mpr ⟨new, hcut, hnew⟩
        have hmid := (hunk_iff _ output _ hunk _ hcursor).mpr ⟨_, _, hlines, hstart, rfl⟩
        refine ⟨s, ?_, hresult⟩
        rw [hmid]
        exact hs

/-- What `apply` does, in terms of lines. -/
theorem apply_iff (patch : UnifiedPatch) (original result : Text) :
    patch.apply original = .ok result ↔
      ∃ new, Cut 0 patch.hunks (fileLines original) new ∧
        result = joinLines (lineEnding original) (trailingNewline original) new := by
  have hlines := fun new => hunks_iff (fileLines original) patch.hunks [] new 0 (Nat.zero_le _)
  simp only [nil_append] at hlines
  unfold UnifiedPatch.apply
  dsimp only
  constructor
  · intro h
    cases hs : patch.hunks.foldlM (Applying.hunk (fileLines original)) ⟨[], 0⟩ with rw [hs] at h
    | error error => cases h
    | ok s =>
      obtain ⟨new, hcut, hnew⟩ := (hlines _).mp ⟨s, hs, rfl⟩
      refine ⟨new, hcut, ?_⟩
      rw [← hnew]
      exact (Except.ok.inj h).symm
  · rintro ⟨new, hcut, rfl⟩
    obtain ⟨s, hs, hnew⟩ := (hlines new).mpr ⟨new, hcut, rfl⟩
    rw [hs]
    dsimp only
    rw [hnew]

end GtaClaw.Tools
