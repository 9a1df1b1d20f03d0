import GtaClaw.Mcp.Framing

/-!
# What one push does, line by line

The frame loop works with offsets into its buffer. Here it is described by the
lines of the buffer instead: each line loses its optional carriage return and is
skipped, decoded or fatal (`lineValue`), and the lines are settled one after the
other until one is fatal (`settle`). `frameLoop_settles` says that the loop does
exactly that, provided the part it skips holds no terminator. `Scanned` is that
proviso as an invariant of the decoder; `push_settles` is the one fact about
`push` the other modules use.
-/

namespace GtaClaw.Mcp

open Lib List

variable {Value JsonError : Type} {fromStr : String → Except JsonError Value}

/-! ## Lines -/

/-- A line without the carriage return its terminator may have. -/
def content (line : List UInt8) : List UInt8 :=
  if line.getLast? = some cr then line.dropLast else line

theorem content_length (line : List UInt8) :
    (content line).length ≤ line.length ∧ line.length ≤ (content line).length + 1 := by
  unfold content
  split
  · rw [length_dropLast]
    omega
  · omega

theorem content_append_cr (line : List UInt8) (h : (content line).length < line.length) :
    line = content line ++ [cr] := by
  unfold content at h ⊢
  split_ifs at h with hc
  · rw [if_pos hc]
    obtain ⟨front, rfl⟩ := getLast?_eq_some_iff.mp hc
    rw [dropLast_concat]
  · omega

variable (fromStr) in
/-- What a complete line is to the decoder: nothing, a value, or fatal. -/
def lineValue (maxFrameBytes : Nat) (line : List UInt8) :
    Except (McpError JsonError) (Option Value) :=
  if (content line).isEmpty then .ok none
  else (decodeFrame fromStr maxFrameBytes (content line)).map some

variable {maxFrameBytes : Nat} {line : List UInt8} {v : Option Value}

theorem lineValue_tooLong (h : maxFrameBytes < (content line).length) :
    lineValue fromStr maxFrameBytes line = .error (.protocol frameTooLong) := by
  have hne : ¬ (content line).isEmpty = true := by
    intro he
    rw [isEmpty_iff.mp he] at h
    exact absurd h (Nat.not_lt_zero _)
  rw [lineValue, if_neg hne, decodeFrame, if_pos h]
  rfl

theorem content_length_of_lineValue
    (h : lineValue fromStr maxFrameBytes line = .ok v) : (content line).length ≤ maxFrameBytes := by
  by_contra hlong
  rw [lineValue_tooLong (by omega)] at h
  cases h

variable (fromStr) in
/-- The value a line stands for: the parse of its content, if there is any content. -/
def parseLine (line : List UInt8) : Option Value :=
  if (content line).isEmpty then none
  else (fromUtf8 (content line)).bind fun text => (fromStr text).toOption

theorem parseLine_of_lineValue
    (h : lineValue fromStr maxFrameBytes line = .ok v) : parseLine fromStr line = v := by
  rw [lineValue] at h
  rw [parseLine]
  by_cases he : (content line).isEmpty = true
  · rw [if_pos he] at h ⊢
    exact Except.ok.inj h
  rw [if_neg he] at h ⊢
  rw [decodeFrame] at h
  split at h
  · cases h
  cases hu : fromUtf8 (content line) with rw [hu] at h
  | none => cases h
  | some text =>
    dsimp only at h
    rw [Option.bind_some]
    cases hp : fromStr text with rw [hp] at h
    | error e => cases h
    | ok value => exact Except.ok.inj h

theorem lineValue_of_parseLine (hfit : (content line).length ≤ maxFrameBytes) {v : Value}
    (h : parseLine fromStr line = some v) : lineValue fromStr maxFrameBytes line = .ok (some v) := by
  rw [parseLine] at h
  rw [lineValue]
  by_cases he : (content line).isEmpty = true
  · rw [if_pos he] at h
    cases h
  rw [if_neg he] at h ⊢
  obtain ⟨text, hu, hp⟩ := Option.bind_eq_some_iff.mp h
  rw [decodeFrame, if_neg (by omega), hu]
  dsimp only
  cases hv : fromStr text with rw [hv] at hp
  | error e => cases hp
  | ok value =>
    cases hp
    rfl

variable (fromStr) in
/-- Settles lines until one is fatal; `consumed` counts them, the fatal one included. -/
def settle (maxFrameBytes : Nat) : List (List UInt8) → Framed Value JsonError
  | [] => ⟨[], 0, .ok ()⟩
  | line :: lines =>
    match lineValue fromStr maxFrameBytes line with
    | .error error => ⟨[], 1, .error error⟩
    | .ok value =>
      let rest := settle maxFrameBytes lines
      ⟨value.toList ++ rest.decoded, rest.consumed + 1, rest.outcome⟩

section Settle

variable {lines : List (List UInt8)}

theorem settle_fatal {e : McpError JsonError}
    (h : lineValue fromStr maxFrameBytes line = .error e) :
    settle fromStr maxFrameBytes (line :: lines) = ⟨[], 1, .error e⟩ := by
  rw [settle, h]

theorem settle_value (h : lineValue fromStr maxFrameBytes line = .ok v) :
    settle fromStr maxFrameBytes (line :: lines)
      = ⟨v.toList ++ (settle fromStr maxFrameBytes lines).decoded,
        (settle fromStr maxFrameBytes lines).consumed + 1,
        (settle fromStr maxFrameBytes lines).outcome⟩ := by
  rw [settle, h]

variable (fromStr maxFrameBytes) in
/-- All lines are settled, or all up to a fatal one. -/
theorem settle_spec : ∀ lines : List (List UInt8),
    match (settle fromStr maxFrameBytes lines).outcome with
    | .ok () => (settle fromStr maxFrameBytes lines).consumed = lines.length
        ∧ (settle fromStr maxFrameBytes lines).decoded = lines.filterMap (parseLine fromStr)
    | .error e => ∃ n line, (settle fromStr maxFrameBytes lines).consumed = n + 1
        ∧ lines[n]? = some line ∧ lineValue fromStr maxFrameBytes line = .error e
  | [] => ⟨rfl, rfl⟩
  | line :: lines => by
    have ih := settle_spec lines
    cases hv : lineValue fromStr maxFrameBytes line with
    | error e =>
      rw [settle_fatal hv]
      exact ⟨0, line, rfl, rfl, hv⟩
    | ok v =>
      rw [settle_value hv]
      cases ho : (settle fromStr maxFrameBytes lines).outcome with rw [ho] at ih
      | error e =>
        obtain ⟨n, fatal, hn, hfatal, he⟩ := ih
        exact ⟨n + 1, fatal, congrArg (· + 1) hn, hfatal, he⟩
      | ok _ =>
        refine ⟨congrArg (· + 1) ih.1, ?_⟩
        rw [ih.2, filterMap_cons, parseLine_of_lineValue hv]
        cases v with
        | none | some v => rfl

theorem settle_of_ok (h : (settle fromStr maxFrameBytes lines).outcome = .ok ()) :
    (settle fromStr maxFrameBytes lines).consumed = lines.length
      ∧ (settle fromStr maxFrameBytes lines).decoded = lines.filterMap (parseLine fromStr) := by
  have hspec := settle_spec fromStr maxFrameBytes lines
  rw [h] at hspec
  exact hspec

theorem settle_ok_of_accepted : ∀ {lines : List (List UInt8)},
    (∀ line ∈ lines, ∃ v, lineValue fromStr maxFrameBytes line = .ok v) →
      (settle fromStr maxFrameBytes lines).outcome = .ok ()
  | [], _ => rfl
  | line :: lines, h => by
    obtain ⟨v, hv⟩ := h line mem_cons_self
    rw [settle_value hv]
    exact settle_ok_of_accepted (forall_mem_cons.mp h).2

end Settle

/-! ## The frame loop -/

section FrameLoop

variable {maxFrameBytes : Nat} {buffered : List UInt8} {s : Framing Value} {line rest : List UInt8}

/-- The loop has looked at everything up to `scan`, and no terminator stands behind `consumed`. -/
structure Framing.Ready (buffered : List UInt8) (s : Framing Value) : Prop where
  consumed_le : s.consumed ≤ s.scan
  clear : lf ∉ slice buffered s.consumed s.scan

theorem Framing.Ready.drop_scan (h : s.Ready buffered) :
    buffered.drop s.consumed = slice buffered s.consumed s.scan ++ buffered.drop s.scan := by
  have hscan : s.scan = s.consumed + (s.scan - s.consumed) := by
    have := h.consumed_le
    omega
  rw [slice]
  conv_rhs => rw [hscan, ← drop_drop, Nat.add_sub_cancel_left]
  rw [take_append_drop]

/-- The frame that ends at a line's terminator is the line's content. -/
theorem slice_frameEnd {c : Nat} (h : buffered.drop c = line ++ lf :: rest) :
    slice buffered c (frameEnd buffered c (c + line.length)) = content line := by
  have hlast : line ≠ [] → buffered[c + line.length - 1]? = line.getLast? := by
    intro hne
    have hpos := length_pos_iff.mpr hne
    have hget : buffered[c + line.length - 1]? = (buffered.drop c)[line.length - 1]? := by
      rw [getElem?_drop]
      congr 1
      omega
    rw [hget, h, getElem?_append_left (by omega), getLast?_eq_getElem?]
  rw [frameEnd, content]
  by_cases hc : line.getLast? = some cr
  · have hne : line ≠ [] := by
      rintro rfl
      cases hc
    have hpos := length_pos_iff.mpr hne
    rw [if_pos hc, if_pos ⟨by omega, (hlast hne).trans hc⟩, slice, h, dropLast_eq_take,
      take_append_of_le_length (by omega)]
    congr 1
    omega
  · have hend : ¬ (c + line.length > c ∧ buffered[c + line.length - 1]? = some cr) := by
      intro hboth
      rcases hboth with ⟨hlt, hcr⟩
      have hne : line ≠ [] := length_pos_iff.mp (by omega)
      exact hc ((hlast hne).symm.trans hcr)
    rw [if_neg hc, if_neg hend, slice, h, Nat.add_sub_cancel_left, take_left]

variable (fromStr maxFrameBytes) in
theorem framePass_line (hr : s.Ready buffered)
    (h : buffered.drop s.consumed = line ++ lf :: rest) (hl : lf ∉ line) :
    framePass fromStr maxFrameBytes buffered s
      = match lineValue fromStr maxFrameBytes line with
        | .ok value => .inl ⟨s.decoded ++ value.toList, s.consumed + line.length + 1,
            s.consumed + line.length + 1⟩
        | .error error => .inr ⟨s.decoded, s.consumed + line.length + 1, .error error⟩ := by
  -- what was skipped is a part of this line
  obtain ⟨skipped, hskip⟩ : ∃ skipped, skipped = slice buffered s.consumed s.scan := ⟨_, rfl⟩
  have hdrop := hr.drop_scan
  have hclear := hr.clear
  rw [← hskip] at hdrop hclear
  rw [h] at hdrop
  obtain ⟨ahead, rfl, hahead⟩ : ∃ ahead, line = skipped ++ ahead
      ∧ buffered.drop s.scan = ahead ++ lf :: rest := by
    rcases append_eq_append_iff.mp hdrop with ⟨more, rfl, hm⟩ | ⟨ahead, rfl, ha⟩
    · cases more with
      | nil => exact ⟨[], by simp, by rw [nil_append] at hm ⊢; exact hm.symm⟩
      | cons b more =>
        cases hm
        exact absurd (mem_append_right _ mem_cons_self) hclear
    · exact ⟨ahead, rfl, ha⟩
  have hlen : s.scan = s.consumed + skipped.length := by
    have hle := hr.consumed_le
    have hscan : s.scan ≤ buffered.length := by
      by_contra hlt
      rw [drop_eq_nil_of_le (by omega)] at hahead
      exact absurd hahead.symm (by simp)
    rw [hskip, slice_length _ hscan]
    omega
  have hfind : (buffered.drop s.scan).findIdx? (· == lf) = some ahead.length := by
    rw [hahead, findIdx?_append, findIdx?_eq_none_iff.mpr, findIdx?_cons]
    · simp
    · intro b hb
      simp only [beq_eq_false_iff_ne]
      rintro rfl
      exact hl (mem_append_right _ hb)
  have hnewline : s.scan + ahead.length = s.consumed + (skipped ++ ahead).length := by
    rw [length_append]
    omega
  unfold framePass
  rw [hfind]
  dsimp only
  rw [hnewline, slice_frameEnd h, lineValue]
  by_cases he : (content (skipped ++ ahead)).isEmpty = true
  · rw [if_pos he, if_pos he]
    simp
  rw [if_neg he, if_neg he]
  cases decodeFrame fromStr maxFrameBytes (content (skipped ++ ahead)) with
  | ok value | error e => rfl

theorem framePass_residue (hr : s.Ready buffered) (h : lf ∉ buffered.drop s.consumed) :
    framePass fromStr maxFrameBytes buffered s = .inr ⟨s.decoded, s.consumed, .ok ()⟩ := by
  have hnone : (buffered.drop s.scan).findIdx? (· == lf) = none := by
    rw [findIdx?_eq_none_iff]
    intro b hb
    simp only [beq_eq_false_iff_ne]
    rintro rfl
    rw [hr.drop_scan] at h
    exact h (mem_append_right _ hb)
  rw [framePass, hnone]

variable (fromStr maxFrameBytes) in
/-- **The frame loop settles the lines of what it has not consumed**, and stops behind the last
line it settled. -/
theorem frameLoop_settles (hr : s.Ready buffered) (hrest : buffered.drop s.consumed = rest) :
    ((frameLoop fromStr maxFrameBytes buffered).run s).decoded
        = s.decoded ++ (settle fromStr maxFrameBytes (completeLines lf rest)).decoded
      ∧ buffered.drop ((frameLoop fromStr maxFrameBytes buffered).run s).consumed
        = unread lf (settle fromStr maxFrameBytes (completeLines lf rest)).consumed rest
      ∧ ((frameLoop fromStr maxFrameBytes buffered).run s).outcome
        = (settle fromStr maxFrameBytes (completeLines lf rest)).outcome := by
  -- by induction on the lines, one pass each
  induction rest using lines_induction lf generalizing s with
  | residue rest hm =>
    have hexit : (frameLoop fromStr maxFrameBytes buffered).body s
        = .inr ⟨s.decoded, s.consumed, .ok ()⟩ := framePass_residue hr (hrest ▸ hm)
    rw [Loop.run_of_exit hexit, completeLines_of_notMem hm]
    exact ⟨(append_nil _).symm, hrest, rfl⟩
  | line l rest hl ih =>
    have hpass := framePass_line fromStr maxFrameBytes hr hrest hl
    have hnext : buffered.drop (s.consumed + l.length + 1) = rest := by
      rw [Nat.add_assoc, ← drop_drop, hrest, ← drop_drop, drop_left]
      rfl
    rw [completeLines_line hl]
    cases hv : lineValue fromStr maxFrameBytes l with rw [hv] at hpass
    | error e =>
      rw [Loop.run_of_exit (L := frameLoop fromStr maxFrameBytes buffered) hpass,
        settle_fatal hv]
      refine ⟨(append_nil _).symm, ?_, rfl⟩
      rw [unread, afterLine_line hl]
      exact hnext
    | ok v =>
      rw [Loop.run_of_pass (L := frameLoop fromStr maxFrameBytes buffered) hpass,
        settle_value hv]
      have hready : Framing.Ready buffered (⟨s.decoded ++ v.toList,
          s.consumed + l.length + 1, s.consumed + l.length + 1⟩ : Framing Value) :=
        ⟨le_rfl, by
          rw [slice, Nat.sub_self]
          exact not_mem_nil⟩
      obtain ⟨hd, hc, ho⟩ := ih hready hnext
      refine ⟨?_, ?_, ho⟩
      · rw [hd, append_assoc]
      · rw [hc, unread, afterLine_line hl]

end FrameLoop

/-! ## One push -/

namespace JsonLineDecoder

/-- The searched part of the buffer holds no terminator. -/
structure Scanned (d : JsonLineDecoder) : Prop where
  scanned_le : d.scanned ≤ d.buffered.length
  clear : lf ∉ d.buffered.take d.scanned

theorem scanned_new (maxFrameBytes : Nat) : (new maxFrameBytes).Scanned :=
  ⟨le_rfl, not_mem_nil⟩

variable {d : JsonLineDecoder} {bytes : List UInt8}

theorem refuses_iff : d.refuses bytes = true
    ↔ d.scanned = d.buffered.length ∧ d.maxFrameBytes < d.buffered.length + bytes.length
      ∧ lf ∉ bytes := by
  simp [refuses, and_assoc]

theorem push_refused (h : d.refuses bytes = true) :
    d.push fromStr bytes = (.error (.protocol frameTooLong), d) := by
  rw [push, if_pos h]

/-- What a push that is not refused returns and keeps, told by the lines of the buffer. -/
def settled (fromStr : String → Except JsonError Value) (d : JsonLineDecoder) (all : List UInt8) :
    Except (McpError JsonError) (List Value) × JsonLineDecoder :=
  match (settle fromStr d.maxFrameBytes (completeLines lf all)).outcome with
  | .error error => (.error error, { d with
      buffered := unread lf (settle fromStr d.maxFrameBytes (completeLines lf all)).consumed all
      scanned := 0 })
  | .ok () =>
    (if (residue lf all).length > d.maxFrameBytes then .error (.protocol frameTooLong)
      else .ok (settle fromStr d.maxFrameBytes (completeLines lf all)).decoded,
      { d with buffered := residue lf all, scanned := (residue lf all).length })

/-- A chunk is refused only if it leaves the line under way too long. -/
theorem residue_of_refuses (hd : d.Scanned) (h : d.refuses bytes = true) : lf ∉ d.buffered ++ bytes
      ∧ d.maxFrameBytes < (residue lf (d.buffered ++ bytes)).length := by
  obtain ⟨hs, hlen, hb⟩ := refuses_iff.mp h
  have hclear := hd.clear
  rw [hs, take_length] at hclear
  have hm : lf ∉ d.buffered ++ bytes := not_mem_append hclear hb
  rw [residue_of_notMem hm, length_append]
  exact ⟨hm, hlen⟩

/-- **A push that is not refused settles the lines of the buffer and the chunk.** -/
theorem push_settles (hd : d.Scanned)
    (h : d.refuses bytes = false) : d.push fromStr bytes = d.settled fromStr (d.buffered ++ bytes) := by
  obtain ⟨all, hall⟩ : ∃ all, all = d.buffered ++ bytes := ⟨_, rfl⟩
  have hready : Framing.Ready all (⟨[], 0, d.scanned⟩ : Framing Value) :=
    ⟨Nat.zero_le _, by
      have hle := hd.scanned_le
      rw [slice, drop_zero, Nat.sub_zero, hall, take_append_of_le_length hle]
      exact hd.clear⟩
  obtain ⟨hdec, hcons, hout⟩ := frameLoop_settles fromStr d.maxFrameBytes hready (drop_zero (l := all))
  rw [push, if_neg (by simp [h]), ← hall]
  dsimp only
  rw [hdec, hcons, hout, settled]
  cases ho : (settle fromStr d.maxFrameBytes (completeLines lf all)).outcome with
  | error e => rfl
  | ok u =>
    dsimp only
    rw [(settle_of_ok ho).1, unread_all]
    split
    · rfl
    · rfl

end JsonLineDecoder

end GtaClaw.Mcp
