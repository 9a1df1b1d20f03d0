import GtaClaw.Mcp.FrameLines

/-!
# Does the way bytes are split matter?

The chunks are concatenated into a stream of lines, all of them empty or JSON
within the limit. If the decoder carried the right state from chunk to chunk,
its answers would only depend on the stream. It carries the right bytes, but it
measures the unfinished line with the carriage return that its terminator may
begin with, and the finished one without.

So the argument is about boundaries. As long as no push failed, the decoder's
buffer is the residue of the bytes so far (`AtResidue`), and the next push is
answered if its lines and the new residue fit (`push_result`). In a stream of good
lines a residue that does not fit is a full line and its carriage return, with
the line feed in the next chunk.
-/

namespace GtaClaw.Mcp

open Lib List

variable {Value JsonError : Type} {fromStr : String → Except JsonError Value}

/-! ## Streams of JSON lines -/

variable (fromStr) in
/-- A stream that ends with a terminator and whose lines are empty or JSON within the limit. -/
structure JsonLines (maxFrameBytes : Nat) (stream : List UInt8) : Prop where
  terminated : residue lf stream = []
  lines : ∀ line ∈ completeLines lf stream, content line = []
    ∨ ((content line).length ≤ maxFrameBytes ∧ (parseLine fromStr line).isSome)

variable {maxFrameBytes : Nat}

theorem JsonLines.accepted {stream : List UInt8} (h : JsonLines fromStr maxFrameBytes stream) :
    ∀ line ∈ completeLines lf stream, ∃ v, lineValue fromStr maxFrameBytes line = .ok v := by
  intro line hline
  rcases h.lines line hline with he | ⟨hfit, hp⟩
  · exact ⟨none, by rw [lineValue, if_pos (isEmpty_iff.mpr he)]⟩
  · obtain ⟨v, hv⟩ := Option.isSome_iff_exists.mp hp
    exact ⟨some v, lineValue_of_parseLine hfit hv⟩

/-- A chunk ends between the carriage return and the line feed of a line whose content is exactly
as long as the limit. -/
def PartsTerminator (maxFrameBytes : Nat) (chunks : List (List UInt8)) : Prop :=
  ∃ i ≤ chunks.length, (residue lf (chunks.take i).flatten).length = maxFrameBytes + 1
    ∧ (residue lf (chunks.take i).flatten).getLast? = some cr
    ∧ (chunks.drop i).flatten.head? = some lf

/-- Behind every chunk the unfinished line fits, its carriage return counted. -/
def ResiduesFit (maxFrameBytes : Nat) : List UInt8 → List (List UInt8) → Prop
  | _, [] => True
  | pending, bytes :: chunks => (residue lf (pending ++ bytes)).length ≤ maxFrameBytes
      ∧ ResiduesFit maxFrameBytes (residue lf (pending ++ bytes)) chunks

theorem residuesFit_iff {pending : List UInt8} {chunks : List (List UInt8)} :
    ResiduesFit maxFrameBytes pending chunks ↔ ∀ i < chunks.length,
      (residue lf (pending ++ (chunks.take (i + 1)).flatten)).length ≤ maxFrameBytes := by
  induction chunks generalizing pending with
  | nil => exact ⟨fun _ i hi => absurd hi (Nat.not_lt_zero _), fun _ => trivial⟩
  | cons bytes chunks ih =>
    have hshift : ∀ i, residue lf (pending ++ ((bytes :: chunks).take (i + 1)).flatten)
        = residue lf (residue lf (pending ++ bytes) ++ (chunks.take i).flatten) := by
      intro i
      rw [take_succ_cons, flatten_cons, ← append_assoc, residue_append]
    rw [ResiduesFit, ih]
    constructor
    · intro hboth i hi
      rcases hboth with ⟨hfirst, hrest⟩
      rw [hshift]
      cases i with
      | zero =>
        rw [take_zero, flatten_nil, append_nil,
          residue_of_notMem (residue_notMem _)]
        exact hfirst
      | succ i => exact hrest i (Nat.lt_of_succ_lt_succ hi)
    · intro h
      refine ⟨?_, fun i hi => ?_⟩
      · have hzero := h 0 (Nat.zero_lt_succ _)
        rw [hshift, take_zero, flatten_nil, append_nil,
          residue_of_notMem (residue_notMem _)] at hzero
        exact hzero
      · have hsucc := h (i + 1) (Nat.succ_lt_succ hi)
        rw [hshift] at hsucc
        exact hsucc

/-- A line that fits, of which too much was pending: only its carriage return was too much. -/
theorem parted_of_fits {pending more : List UInt8} (hlong : maxFrameBytes < pending.length)
    (hfit : (content (pending ++ more)).length ≤ maxFrameBytes) :
    more = [] ∧ pending.length = maxFrameBytes + 1 ∧ pending.getLast? = some cr := by
  have hlen := (content_length (pending ++ more)).2
  rw [length_append] at hlen
  have hnil : more = [] := length_eq_zero_iff.mp (by omega)
  subst hnil
  rw [append_nil] at hfit hlen
  refine ⟨rfl, by rw [length_nil] at hlen; omega, ?_⟩
  rw [content_append_cr pending (by omega)]
  exact getLast?_concat

/-- In a stream of good lines, what is pending at a cut and does not fit is a full line with its
carriage return; the line feed comes next. -/
theorem JsonLines.residue_tooLong {front back : List UInt8}
    (h : JsonLines fromStr maxFrameBytes (front ++ back))
    (hlong : maxFrameBytes < (residue lf front).length) :
    (residue lf front).length = maxFrameBytes + 1 ∧ (residue lf front).getLast? = some cr
      ∧ back.head? = some lf := by
  have hmem : lf ∈ back := by
    by_contra hno
    have hend := h.terminated
    rw [(append_of_notMem front hno).2, append_eq_nil_iff] at hend
    rw [hend.1] at hlong
    exact absurd hlong (Nat.not_lt_zero _)
  -- the line the residue is the beginning of
  obtain ⟨more, rest, rfl, hmore⟩ := eq_append_cons_of_mem hmem
  have hline : residue lf front ++ more ∈ completeLines lf (front ++ (more ++ lf :: rest)) := by
    rw [completeLines_append_line front hmore]
    exact mem_append_right _ mem_cons_self
  obtain ⟨v, hv⟩ := h.accepted _ hline
  obtain ⟨rfl, hlen, hcr⟩ := parted_of_fits hlong (content_length_of_lineValue hv)
  exact ⟨hlen, hcr, rfl⟩

/-! ## From chunk to chunk -/

namespace JsonLineDecoder

/-- The decoder holds the unfinished line `pending` and has searched all of it. -/
structure AtResidue (d : JsonLineDecoder) (maxFrameBytes : Nat) (pending : List UInt8) : Prop where
  buffered : d.buffered = pending
  scanned : d.scanned = pending.length
  limit : d.maxFrameBytes = maxFrameBytes
  clear : lf ∉ pending

theorem AtResidue.toScanned {d : JsonLineDecoder} {pending : List UInt8}
    (h : d.AtResidue maxFrameBytes pending) : d.Scanned := by
  refine ⟨by rw [h.scanned, h.buffered], ?_⟩
  rw [h.scanned, h.buffered, take_length]
  exact h.clear

variable (fromStr) in
/-- **One push**, from behind a line: what it returns, and where it leaves the decoder. -/
theorem push_result {d : JsonLineDecoder} {pending : List UInt8}
    (h : d.AtResidue maxFrameBytes pending) (bytes : List UInt8) :
    (d.push fromStr bytes).1
        = (match (settle fromStr maxFrameBytes (completeLines lf (pending ++ bytes))).outcome with
          | .error error => .error error
          | .ok () => if maxFrameBytes < (residue lf (pending ++ bytes)).length then
              .error (.protocol frameTooLong)
            else .ok (settle fromStr maxFrameBytes (completeLines lf (pending ++ bytes))).decoded)
      ∧ ((settle fromStr maxFrameBytes (completeLines lf (pending ++ bytes))).outcome = .ok () →
        (residue lf (pending ++ bytes)).length ≤ maxFrameBytes →
        (d.push fromStr bytes).2.AtResidue maxFrameBytes (residue lf (pending ++ bytes))) := by
  cases hr : d.refuses bytes with
  | true =>
    obtain ⟨hclear, hlong⟩ := residue_of_refuses h.toScanned hr
    rw [h.buffered] at hclear hlong
    rw [h.limit] at hlong
    rw [push_refused hr, completeLines_of_notMem hclear]
    exact ⟨(if_pos hlong).symm, fun _ hfit => absurd hfit (by omega)⟩
  | false =>
    rw [push_settles h.toScanned hr, h.buffered, settled, h.limit]
    cases (settle fromStr maxFrameBytes (completeLines lf (pending ++ bytes))).outcome with
    | error e => exact ⟨rfl, (by simp)⟩
    | ok _ => exact ⟨rfl, fun _ _ => ⟨rfl, rfl, rfl, residue_notMem _⟩⟩

variable (fromStr) in
theorem pushAll_cons (d : JsonLineDecoder) (bytes : List UInt8) (chunks : List (List UInt8)) :
    (d.pushAll fromStr (bytes :: chunks)).1
      = (d.push fromStr bytes).1 :: ((d.push fromStr bytes).2.pushAll fromStr chunks).1 := rfl

variable (fromStr) in
/-- **A run over good lines** answers every push, with what the lines stand for, exactly if every
residue fits. -/
theorem pushAll_answers : ∀ (chunks : List (List UInt8))
    {d : JsonLineDecoder} {pending : List UInt8}, d.AtResidue maxFrameBytes pending →
    (∀ line ∈ completeLines lf (pending ++ chunks.flatten),
      ∃ v, lineValue fromStr maxFrameBytes line = .ok v) →
    ((∀ result ∈ (d.pushAll fromStr chunks).1, ∃ values, result = .ok values)
        ↔ ResiduesFit maxFrameBytes pending chunks)
      ∧ (ResiduesFit maxFrameBytes pending chunks → returned (d.pushAll fromStr chunks).1
        = (completeLines lf (pending ++ chunks.flatten)).filterMap (parseLine fromStr)) := by
  intro chunks
  induction chunks with
  | nil =>
    intro d pending h _
    refine ⟨⟨fun _ => trivial, fun _ result hr => absurd hr not_mem_nil⟩, fun _ => ?_⟩
    rw [flatten_nil, append_nil, completeLines_of_notMem h.clear]
    rfl
  | cons bytes chunks ih =>
    intro d pending h hgood
    have hlines : completeLines lf (pending ++ (bytes :: chunks).flatten)
        = completeLines lf (pending ++ bytes)
          ++ completeLines lf (residue lf (pending ++ bytes) ++ chunks.flatten) := by
      rw [flatten_cons, ← append_assoc, completeLines_append]
    rw [hlines] at hgood ⊢
    obtain ⟨hresult, hnext⟩ := push_result fromStr h bytes
    have ho := settle_ok_of_accepted fun line hl => hgood line (mem_append_left _ hl)
    rw [ho, (settle_of_ok ho).2] at hresult
    rw [pushAll_cons, hresult]
    by_cases hfit : (residue lf (pending ++ bytes)).length ≤ maxFrameBytes
    · obtain ⟨hiff, hvalues⟩ := ih (hnext ho hfit) fun line hl => hgood line (mem_append_right _ hl)
      rw [if_neg (by omega), forall_mem_cons, hiff]
      refine ⟨and_congr ⟨fun _ => hfit, fun _ => ⟨_, rfl⟩⟩ Iff.rfl, fun hboth => ?_⟩
      rw [filterMap_append, ← hvalues hboth.2]
      rfl
    · rw [if_pos (by omega)]
      refine ⟨iff_of_false (fun hall => ?_) (fun hboth => hfit hboth.1),
        fun hboth => absurd hboth.1 hfit⟩
      obtain ⟨values, hv⟩ := hall _ mem_cons_self
      cases hv

/-- **Splitting matters only at a parted terminator.** A stream of JSON lines pushed in chunks is
answered throughout, with the values of its lines in order, exactly if no chunk ends between the
carriage return and the line feed of a line that is as long as the limit. -/
theorem pushAll_chunking_iff (maxFrameBytes : Nat) (chunks : List (List UInt8))
    (h : JsonLines fromStr maxFrameBytes chunks.flatten) :
    ((∀ result ∈ ((new maxFrameBytes).pushAll fromStr chunks).1, ∃ values, result = .ok values)
        ∧ returned ((new maxFrameBytes).pushAll fromStr chunks).1
          = (completeLines lf chunks.flatten).filterMap (parseLine fromStr))
      ↔ ¬ PartsTerminator maxFrameBytes chunks := by
  have hnew : (new maxFrameBytes).AtResidue maxFrameBytes [] := ⟨rfl, rfl, rfl, not_mem_nil⟩
  obtain ⟨hiff, hvalues⟩ := pushAll_answers fromStr chunks hnew h.accepted
  have hboth : ((∀ result ∈ ((new maxFrameBytes).pushAll fromStr chunks).1,
      ∃ values, result = .ok values) ∧ returned ((new maxFrameBytes).pushAll fromStr chunks).1
        = (completeLines lf chunks.flatten).filterMap (parseLine fromStr))
      ↔ ResiduesFit maxFrameBytes [] chunks :=
    ⟨fun hall => hiff.mp hall.1, fun hfits => ⟨hiff.mpr hfits, hvalues hfits⟩⟩
  rw [hboth, residuesFit_iff]
  constructor
  · rintro hfits ⟨i, hi, hlen, -, -⟩
    cases i with
    | zero => exact absurd hlen (Nat.succ_ne_zero _).symm
    | succ i =>
      have hfit := hfits i hi
      rw [nil_append, hlen] at hfit
      omega
  · intro hparts i hi
    by_contra hlong
    rw [nil_append] at hlong
    rw [← take_append_drop (i + 1) chunks, flatten_append] at h
    exact hparts ⟨i + 1, hi, h.residue_tooLong (by omega)⟩

def ascii (text : String) : List UInt8 := text.toList.map fun c => UInt8.ofNat c.toNat

/-- A parser that knows unsigned numbers only, for concrete runs. -/
def parseNumber (text : String) : Except String Nat :=
  text.toList.foldlM (fun n c =>
    if c.isDigit then .ok (n * 10 + (c.toNat - 48)) else .error "expected value") 0

/-- Two numbers and an empty line, with the first terminator inside a chunk. -/
theorem pushAll_chunking_numbers :
    JsonLines parseNumber 2 (["1", "2\r\n\n", "7\n"].map ascii).flatten
      ∧ ¬ PartsTerminator 2 (["1", "2\r\n\n", "7\n"].map ascii)
      ∧ returned ((new 2).pushAll parseNumber (["1", "2\r\n\n", "7\n"].map ascii)).1 = [12, 7] := by
  have hlines : JsonLines parseNumber 2 (["1", "2\r\n\n", "7\n"].map ascii).flatten :=
    ⟨by decide +kernel, by decide +kernel⟩
  have hwhole : ¬ PartsTerminator 2 (["1", "2\r\n\n", "7\n"].map ascii) := by
    rw [PartsTerminator]
    decide +kernel
  refine ⟨hlines, hwhole, ?_⟩
  rw [((pushAll_chunking_iff 2 _ hlines).mpr hwhole).2]
  decide +kernel

/-- The same line in one chunk and in two: the second time the limit is applied to the carriage
return as well, the chunk is refused and the number is lost. -/
theorem push_parted_terminator :
    JsonLines parseNumber 2 (["12\r", "\n"].map ascii).flatten
      ∧ ((new 2).pushAll parseNumber [ascii "12\r\n"]).1 = [.ok [12]]
      ∧ ((new 2).pushAll parseNumber (["12\r", "\n"].map ascii)).1
        = [.error (.protocol frameTooLong), .ok []] :=
  ⟨⟨by decide +kernel, by decide +kernel⟩, by decide +kernel, by decide +kernel⟩

/-! ## Values ahead of an error -/

/-- The values up to the first push that fails. -/
def delivered : List (Except (McpError JsonError) (List Value)) → List Value
  | .ok values :: results => values ++ delivered results
  | _ => []

variable (fromStr) in
/-- The first push that fails has completed no value, and what it leaves is not too long only
because the chunk parts a terminator. -/
def keepsFrames (maxFrameBytes : Nat) : List UInt8 → List (List UInt8) → Bool
  | _, [] => true
  | pending, bytes :: chunks =>
    let framed := settle fromStr maxFrameBytes (completeLines lf (pending ++ bytes))
    let rest := residue lf (pending ++ bytes)
    match framed.outcome with
    | .error _ => framed.decoded.isEmpty
    | .ok () =>
      if maxFrameBytes < rest.length then
        framed.decoded.isEmpty ∧ ¬ (rest.length = maxFrameBytes + 1 ∧ rest.getLast? = some cr
          ∧ chunks.flatten.head? = some lf)
      else keepsFrames maxFrameBytes rest chunks

theorem settle_append_decoded {lines : List (List UInt8)} : ∀ before : List (List UInt8),
    (settle fromStr maxFrameBytes (before ++ lines)).decoded
      = (settle fromStr maxFrameBytes before).decoded
        ++ match (settle fromStr maxFrameBytes before).outcome with
          | .ok () => (settle fromStr maxFrameBytes lines).decoded
          | .error _ => []
  | [] => rfl
  | line :: before => by
    cases hv : lineValue fromStr maxFrameBytes line with
    | error e =>
      rw [cons_append, settle_fatal hv, settle_fatal hv]
      rfl
    | ok v =>
      rw [cons_append, settle_value hv, settle_value hv, settle_append_decoded before,
        append_assoc]

/-- Nothing comes behind a line that is too long. -/
theorem settle_tooLong {pending rest : List UInt8} (hclear : lf ∉ pending)
    (hlong : maxFrameBytes < pending.length)
    (hwhole : ¬ (pending.length = maxFrameBytes + 1 ∧ pending.getLast? = some cr
      ∧ rest.head? = some lf)) :
    (settle fromStr maxFrameBytes (completeLines lf (pending ++ rest))).decoded = [] := by
  by_cases hmem : lf ∈ rest
  · obtain ⟨more, behind, rfl, hmore⟩ := eq_append_cons_of_mem hmem
    rw [completeLines_append_line pending hmore, completeLines_of_notMem hclear,
      residue_of_notMem hclear, nil_append, settle_fatal (lineValue_tooLong ?_)]
    by_contra hfit
    obtain ⟨rfl, hlen, hcr⟩ := parted_of_fits hlong (Nat.le_of_not_lt hfit)
    exact hwhole ⟨hlen, hcr, rfl⟩
  · rw [completeLines_of_notMem (not_mem_append hclear hmem)]
    rfl

/-- **What is delivered** are the values of the lines ahead of the first fatal one. -/
theorem delivered_pushAll : ∀ (chunks : List (List UInt8)) {d : JsonLineDecoder}
    {pending : List UInt8}, d.AtResidue maxFrameBytes pending →
    keepsFrames fromStr maxFrameBytes pending chunks = true →
    delivered (d.pushAll fromStr chunks).1
      = (settle fromStr maxFrameBytes (completeLines lf (pending ++ chunks.flatten))).decoded
  | [], d, pending, h, _ => by
    rw [flatten_nil, append_nil, completeLines_of_notMem h.clear]
    rfl
  | bytes :: chunks, d, pending, h, hkeeps => by
    obtain ⟨hresult, hnext⟩ := push_result fromStr h bytes
    rw [flatten_cons, ← append_assoc, completeLines_append, settle_append_decoded, pushAll_cons,
      hresult]
    rw [keepsFrames] at hkeeps
    cases ho : (settle fromStr maxFrameBytes (completeLines lf (pending ++ bytes))).outcome with
      simp only [ho] at hkeeps ⊢
    | error e =>
      rw [isEmpty_iff.mp hkeeps]
      rfl
    | ok _ =>
      by_cases hlong : maxFrameBytes < (residue lf (pending ++ bytes)).length
      · rw [if_pos hlong] at hkeeps ⊢
        obtain ⟨hnone, hwhole⟩ := of_decide_eq_true hkeeps
        rw [isEmpty_iff.mp hnone, settle_tooLong (residue_notMem _) hlong hwhole]
        rfl
      · rw [if_neg hlong] at hkeeps ⊢
        exact congrArg _ (delivered_pushAll chunks (hnext ho (by omega)) hkeeps)

/-- **The chunking does not show in what is delivered.** Two ways to split a stream deliver the
same values up to the first error, if the push that fails has completed no value itself. -/
theorem delivered_chunking {maxFrameBytes : Nat} {chunks chunks' : List (List UInt8)}
    (hsame : chunks.flatten = chunks'.flatten)
    (h : keepsFrames fromStr maxFrameBytes [] chunks = true)
    (h' : keepsFrames fromStr maxFrameBytes [] chunks' = true) :
    delivered ((new maxFrameBytes).pushAll fromStr chunks).1
      = delivered ((new maxFrameBytes).pushAll fromStr chunks').1 := by
  have hnew : (new maxFrameBytes).AtResidue maxFrameBytes [] := ⟨rfl, rfl, rfl, not_mem_nil⟩
  rw [delivered_pushAll chunks hnew h, delivered_pushAll chunks' hnew h', hsame]

theorem delivered_chunking_numbers :
    delivered ((new 2).pushAll parseNumber (["1\n", "x\n2\n"].map ascii)).1 = [1] := by
  have hsame : delivered ((new 2).pushAll parseNumber (["1\n", "x\n2\n"].map ascii)).1
      = delivered ((new 2).pushAll parseNumber (["1", "\nx", "\n2\n"].map ascii)).1 :=
    delivered_chunking (by decide +kernel) (by decide +kernel) (by decide +kernel)
  rw [hsame]
  decide +kernel

/-- In one chunk with the line that fails, a value is lost. -/
theorem push_loses_value :
    delivered ((new 2).pushAll parseNumber (["1\n", "x\n"].map ascii)).1 = [1]
      ∧ delivered ((new 2).pushAll parseNumber [ascii "1\nx\n"]).1 = [] :=
  ⟨by decide +kernel, by decide +kernel⟩

end JsonLineDecoder

end GtaClaw.Mcp
