import GtaClaw.Mcp.Chunking

/-!
# Going on after an error

What a caller that keeps pushing after an error should see is said by a
reference decoder. It remembers every byte that was ever pushed and the number
of the line it goes on with; an error moves that number just behind the
offending line, also when that line has not ended yet.

The real decoder forgets. It drops what it has consumed, and a chunk it refuses
is never copied at all, so its buffer can hold the beginning of a line whose
middle is gone. That does no harm as long as the beginning alone is too long: the
line then fails when it ends, whatever is missing, unless all that is too much of
it is a carriage return. `Tracks` relates the two decoders with exactly this
slack, and `Faithful` names the pushes that keep it.
-/

namespace GtaClaw.Mcp

open Lib JsonLineDecoder List

variable {Value JsonError : Type} {fromStr : String → Except JsonError Value}

/-! ## The reference decoder -/

/-- Everything pushed so far, and the number of the line to go on with. -/
structure Reference where
  all : List UInt8
  next : Nat

namespace Reference

def start : Reference := ⟨[], 0⟩

/-- The line under way was already reported as too long. -/
def Condemned (r : Reference) : Prop := (completeLines lf r.all).length < r.next

instance (r : Reference) : Decidable r.Condemned :=
  inferInstanceAs (Decidable ((completeLines lf r.all).length < r.next))

def push (fromStr : String → Except JsonError Value) (maxFrameBytes : Nat) (r : Reference)
    (bytes : List UInt8) : Except (McpError JsonError) (List Value) × Reference :=
  let all := r.all ++ bytes
  if r.Condemned then (.error (.protocol frameTooLong), ⟨all, r.next⟩)
  else
    let framed := settle fromStr maxFrameBytes ((completeLines lf all).drop r.next)
    match framed.outcome with
    | .error error => (.error error, ⟨all, r.next + framed.consumed⟩)
    | .ok () =>
      if (residue lf all).length > maxFrameBytes then
        (.error (.protocol frameTooLong), ⟨all, (completeLines lf all).length + 1⟩)
      else (.ok framed.decoded, ⟨all, (completeLines lf all).length⟩)

def pushAll (fromStr : String → Except JsonError Value) (maxFrameBytes : Nat) (r : Reference) :
    List (List UInt8) → List (Except (McpError JsonError) (List Value)) × Reference
  | [] => ([], r)
  | bytes :: chunks =>
    let (result, r) := r.push fromStr maxFrameBytes bytes
    let (results, r) := r.pushAll fromStr maxFrameBytes chunks
    (result :: results, r)

variable (fromStr) in
theorem push_all (maxFrameBytes : Nat) (r : Reference) (bytes : List UInt8) :
    (r.push fromStr maxFrameBytes bytes).2.all = r.all ++ bytes := by
  rw [push]
  split
  · rfl
  dsimp only
  split
  · rfl
  split
  · rfl
  · rfl

theorem not_condemned {r : Reference} (h : ¬ r.Condemned) (bytes : List UInt8) :
    r.next ≤ (completeLines lf (r.all ++ bytes)).length := by
  have hle := not_lt.mp h
  rw [completeLines_append, length_append]
  omega

variable (fromStr) in
/-- A push hands out the lines it goes on with, or nothing, and never goes back. -/
theorem push_values (maxFrameBytes : Nat) (r : Reference) (bytes : List UInt8) :
    r.next ≤ (r.push fromStr maxFrameBytes bytes).2.next
      ∧ ∀ values, (r.push fromStr maxFrameBytes bytes).1 = .ok values →
        (r.push fromStr maxFrameBytes bytes).2.next = (completeLines lf (r.all ++ bytes)).length
          ∧ values = ((completeLines lf (r.all ++ bytes)).drop r.next).filterMap
            (parseLine fromStr) := by
  rw [push]
  by_cases hc : r.Condemned
  · rw [if_pos hc]
    exact ⟨le_rfl, by simp⟩
  have hle := not_condemned hc bytes
  rw [if_neg hc]
  dsimp only
  cases ho : (settle fromStr maxFrameBytes
      ((completeLines lf (r.all ++ bytes)).drop r.next)).outcome with
  | error e => exact ⟨Nat.le_add_right _ _, by simp⟩
  | ok u =>
    dsimp only
    split
    · exact ⟨Nat.le_succ_of_le hle, by simp⟩
    refine ⟨hle, fun values h => ⟨rfl, ?_⟩⟩
    rw [← Except.ok.inj h]
    exact (settle_of_ok ho).2

variable (fromStr) in
/-- **The reference hands out lines in order**, at most once each, from the line it goes on with. -/
theorem pushAll_values (maxFrameBytes : Nat) : ∀ (chunks : List (List UInt8)) (r : Reference),
    (returned (r.pushAll fromStr maxFrameBytes chunks).1).Sublist
      (((completeLines lf (r.all ++ chunks.flatten)).drop r.next).filterMap (parseLine fromStr)) := by
  intro chunks
  induction chunks with
  | nil =>
    intro r
    exact nil_sublist _
  | cons bytes chunks ih =>
    intro r
    obtain ⟨hnext, hok⟩ := push_values fromStr maxFrameBytes r bytes
    have hrest := ih (r.push fromStr maxFrameBytes bytes).2
    rw [push_all, append_assoc] at hrest
    change (returned ((r.push fromStr maxFrameBytes bytes).1
      :: ((r.push fromStr maxFrameBytes bytes).2.pushAll fromStr maxFrameBytes chunks).1)).Sublist _
    cases hv : (r.push fromStr maxFrameBytes bytes).1 with
    | error e => exact hrest.trans ((drop_sublist_drop_left _ hnext).filterMap _)
    | ok values =>
      obtain ⟨hn, rfl⟩ := hok values hv
      -- the lines up to here and the lines from here on
      have hsplit : (completeLines lf (r.all ++ (bytes :: chunks).flatten)).drop r.next
          = (completeLines lf (r.all ++ bytes)).drop r.next
            ++ (completeLines lf (r.all ++ (bytes :: chunks).flatten)).drop
              (completeLines lf (r.all ++ bytes)).length := by
        rw [flatten_cons, ← append_assoc, completeLines_append, drop_left,
          drop_append_of_le_length (hn ▸ hnext)]
      rw [hn] at hrest
      rw [hsplit, filterMap_append]
      exact hrest.append_left _

end Reference

/-! ## Pushes that lose nothing -/

namespace JsonLineDecoder

/-- The push drops no bytes of a line that still fits, and does not end a line that was reported
as too long and is not. -/
def Faithful (d : JsonLineDecoder) (bytes : List UInt8) : Prop :=
  (d.refuses bytes = true → d.maxFrameBytes < d.buffered.length)
    ∧ (d.scanned = d.buffered.length → d.maxFrameBytes < d.buffered.length →
      bytes.head? = some lf → d.maxFrameBytes < (content d.buffered).length)

instance (d : JsonLineDecoder) (bytes : List UInt8) : Decidable (d.Faithful bytes) :=
  inferInstanceAs (Decidable (_ ∧ _))

/-- Every push of the run is faithful. -/
def FaithfulRun (fromStr : String → Except JsonError Value) (d : JsonLineDecoder) :
    List (List UInt8) → Prop
  | [] => True
  | bytes :: chunks => d.Faithful bytes ∧ FaithfulRun fromStr (d.push fromStr bytes).2 chunks

end JsonLineDecoder

/-- Line `k` of the bytes seen is fatal, or is under way and too long already. -/
def Offends (fromStr : String → Except JsonError Value) (maxFrameBytes : Nat) (seen : List UInt8)
    (k : Nat) : Prop :=
  (∃ line e, (completeLines lf seen)[k]? = some line
      ∧ lineValue fromStr maxFrameBytes line = .error e)
    ∨ (k = (completeLines lf seen).length ∧ maxFrameBytes < (residue lf seen).length)

/-- The decoder follows the reference: its buffer is what the reference has still to read, or the
beginning of a line that is reported already. -/
inductive Tracks (maxFrameBytes : Nat) (r : Reference) (d : JsonLineDecoder) : Prop where
  | reading (limit : d.maxFrameBytes = maxFrameBytes) (scanned : d.Scanned)
      (free : ¬ r.Condemned) (buffered : unread lf r.next r.all = d.buffered)
      (fits : d.scanned = d.buffered.length → d.buffered.length ≤ maxFrameBytes)
  | condemned (limit : d.maxFrameBytes = maxFrameBytes) (scanned : d.Scanned)
      (next : r.next = (completeLines lf r.all).length + 1)
      (searched : d.scanned = d.buffered.length) (tooLong : maxFrameBytes < d.buffered.length)
      (dropped : List UInt8) (pending : residue lf r.all = d.buffered ++ dropped)

theorem tracks_start (maxFrameBytes : Nat) : Tracks maxFrameBytes .start (.new maxFrameBytes) :=
  .reading rfl (scanned_new _) (Nat.not_lt_zero _) rfl fun _ => Nat.zero_le _

/-- One push of the two decoders: the same answer, still in step, and an error leaves the reference
right behind the offending line. -/
structure InStep (fromStr : String → Except JsonError Value) (maxFrameBytes : Nat)
    (pushed : Except (McpError JsonError) (List Value) × JsonLineDecoder)
    (expected : Except (McpError JsonError) (List Value) × Reference) : Prop where
  result : pushed.1 = expected.1
  tracks : Tracks maxFrameBytes expected.2 pushed.2
  offends : ∀ e, expected.1 = .error e → ∃ k, expected.2.next = k + 1
    ∧ Offends fromStr maxFrameBytes expected.2.all k

section Step

variable {maxFrameBytes : Nat} {r : Reference} {d : JsonLineDecoder} {bytes : List UInt8}

/-- The step of a decoder that holds all the reference has still to read. -/
theorem inStep_reading (limit : d.maxFrameBytes = maxFrameBytes) (scanned : d.Scanned)
    (free : ¬ r.Condemned) (buffered : unread lf r.next r.all = d.buffered)
    (fits : d.scanned = d.buffered.length → d.buffered.length ≤ maxFrameBytes)
    (h : d.Faithful bytes) :
    InStep fromStr maxFrameBytes (d.push fromStr bytes) (r.push fromStr maxFrameBytes bytes) := by
  have hrefuses : d.refuses bytes = false := by
    by_contra hr
    rw [Bool.not_eq_false] at hr
    have hfit := fits (refuses_iff.mp hr).1
    have hlong := h.1 hr
    omega
  -- the buffer is the reference's bytes from line `next` on
  have hle := Reference.not_condemned free bytes
  have hbuf : d.buffered ++ bytes = unread lf r.next (r.all ++ bytes) := by
    rw [unread_append _ _ _ (not_lt.mp free), buffered]
  obtain ⟨hlines, hres⟩ := completeLines_unread r.next (r.all ++ bytes) hle
  rw [push_settles scanned hrefuses, hbuf, settled, limit, hlines,
    hres, Reference.push, if_neg free]
  dsimp only
  cases ho : (settle fromStr maxFrameBytes
      ((completeLines lf (r.all ++ bytes)).drop r.next)).outcome with
  | error e =>
    have hspec := settle_spec fromStr maxFrameBytes ((completeLines lf (r.all ++ bytes)).drop r.next)
    rw [ho] at hspec
    obtain ⟨n, line, hn, hline, hfatal⟩ := hspec
    rw [getElem?_drop] at hline
    obtain ⟨hlt, -⟩ := List.getElem?_eq_some_iff.mp hline
    refine ⟨rfl, .reading rfl ⟨Nat.zero_le _, not_mem_nil⟩ ?_ (unread_add _ _ _) ?_, ?_⟩
    · exact not_lt.mpr (by dsimp only; omega)
    · intro hz
      rw [← hz]
      exact Nat.zero_le _
    · intro e' he
      exact ⟨r.next + n, by dsimp only; rw [hn, Nat.add_assoc], .inl ⟨line, e, hline, hfatal⟩⟩
  | ok u =>
    by_cases hlong : (residue lf (r.all ++ bytes)).length > maxFrameBytes
    · rw [if_pos hlong, if_pos hlong]
      refine ⟨rfl, .condemned rfl ⟨le_rfl, ?_⟩ rfl rfl hlong []
        (append_nil _).symm, ?_⟩
      · rw [take_length]
        exact residue_notMem _
      · intro e he
        exact ⟨_, rfl, .inr ⟨rfl, hlong⟩⟩
    · rw [if_neg hlong, if_neg hlong]
      refine ⟨rfl, .reading rfl ⟨le_rfl, ?_⟩ (lt_irrefl _) (unread_all _)
        (fun _ => not_lt.mp hlong), by simp⟩
      rw [take_length]
      exact residue_notMem _

section Condemned

/-! The line under way is reported already; some of it may have been dropped. -/

variable (limit : d.maxFrameBytes = maxFrameBytes) (scanned : d.Scanned)
  (next : r.next = (completeLines lf r.all).length + 1) (searched : d.scanned = d.buffered.length)
  (tooLong : maxFrameBytes < d.buffered.length) {dropped : List UInt8}
  (pending : residue lf r.all = d.buffered ++ dropped)

include next in
theorem push_condemned (bytes : List UInt8) : r.push fromStr maxFrameBytes bytes
    = (.error (.protocol frameTooLong), ⟨r.all ++ bytes, r.next⟩) := by
  have hcond : r.Condemned := by
    rw [Reference.Condemned, next]
    omega
  rw [Reference.push, if_pos hcond]

include limit scanned next searched tooLong pending in
/-- The line ends, and is too long for both decoders. -/
theorem inStep_ends {more rest : List UInt8} (hmore : lf ∉ more)
    (h : d.Faithful (more ++ lf :: rest)) :
    InStep fromStr maxFrameBytes (d.push fromStr (more ++ lf :: rest))
      (r.push fromStr maxFrameBytes (more ++ lf :: rest)) := by
  -- a line that began too long stays too long, unless all that was too much is its carriage return
  have hlong : ∀ gone, maxFrameBytes < (content (d.buffered ++ (gone ++ more))).length := by
    intro gone
    cases hall : gone ++ more with
    | nil =>
      rw [(append_eq_nil_iff.mp hall).2] at h
      rw [append_nil, ← limit]
      exact h.2 searched (limit ▸ tooLong) rfl
    | cons b line =>
      have hlen := (content_length (d.buffered ++ b :: line)).2
      rw [length_append, length_cons] at hlen
      omega
  have hrefuses : d.refuses (more ++ lf :: rest) = false := by
    by_contra hr
    rw [Bool.not_eq_false] at hr
    exact (refuses_iff.mp hr).2.2 (mem_append_right _ mem_cons_self)
  have hclear : lf ∉ residue lf r.all := residue_notMem r.all
  have hseen : lf ∉ residue lf r.all ++ more := not_mem_append hclear hmore
  have hline : lf ∉ d.buffered ++ more := by
    rw [pending] at hclear
    exact not_mem_append (fun hmem => hclear (mem_append_left _ hmem)) hmore
  have hlines := completeLines_append_line r.all hmore rest
  have hfatal : settle fromStr maxFrameBytes ((d.buffered ++ more) :: completeLines lf rest)
      = ⟨[], 1, .error (.protocol frameTooLong)⟩ := settle_fatal (lineValue_tooLong (hlong []))
  rw [push_condemned next, push_settles scanned hrefuses, settled,
    limit, ← append_assoc, completeLines_line hline, hfatal]
  refine ⟨rfl, .reading rfl ⟨Nat.zero_le _, not_mem_nil⟩ ?_ ?_ ?_, ?_⟩
  · rw [Reference.Condemned, hlines, next, length_append, length_cons]
    omega
  · rw [next, unread_add, unread_append _ _ _ le_rfl, unread_all, ← append_assoc,
      unread, unread, afterLine_line hseen, unread, afterLine_line hline, unread]
  · intro hz
    rw [← hz]
    exact Nat.zero_le _
  · intro e he
    refine ⟨_, next, .inl ⟨residue lf r.all ++ more, _, ?_, lineValue_tooLong ?_⟩⟩
    · rw [hlines, getElem?_append_right le_rfl, Nat.sub_self]
      rfl
    · rw [pending, append_assoc]
      exact hlong dropped

include limit scanned next searched tooLong pending in
/-- The line goes on: the chunk is refused, and remembered by the reference only. -/
theorem inStep_refused (hm : lf ∉ bytes) :
    InStep fromStr maxFrameBytes (d.push fromStr bytes) (r.push fromStr maxFrameBytes bytes) := by
  have hrefuses : d.refuses bytes = true := refuses_iff.mpr ⟨searched, by omega, hm⟩
  obtain ⟨hlines, hres⟩ := append_of_notMem r.all hm
  rw [pending, append_assoc] at hres
  rw [push_condemned next, push_refused hrefuses]
  refine ⟨rfl, .condemned limit scanned ?_ searched tooLong (dropped ++ bytes) hres, ?_⟩
  · rw [hlines, next]
  · intro e he
    refine ⟨_, next, .inr ⟨by rw [hlines], ?_⟩⟩
    rw [hres, length_append]
    omega

end Condemned

variable (fromStr) in
/-- **A faithful push keeps the decoders in step.** -/
theorem Tracks.push (ht : Tracks maxFrameBytes r d) (h : d.Faithful bytes) :
    InStep fromStr maxFrameBytes (d.push fromStr bytes) (r.push fromStr maxFrameBytes bytes) := by
  cases ht with
  | reading limit scanned free buffered fits =>
    exact inStep_reading limit scanned free buffered fits h
  | condemned limit scanned next searched tooLong dropped pending =>
    by_cases hm : lf ∈ bytes
    · obtain ⟨more, rest, rfl, hmore⟩ := eq_append_cons_of_mem hm
      exact inStep_ends limit scanned next searched tooLong pending hmore h
    · exact inStep_refused limit scanned next searched tooLong pending hm

end Step

/-! ## Runs -/

/-- The values handed out behind a failed push come from lines behind the offending one. -/
def ResumesBehind (fromStr : String → Except JsonError Value) (maxFrameBytes : Nat)
    (seen : List UInt8) (chunks : List (List UInt8))
    (results : List (Except (McpError JsonError) (List Value))) : Prop :=
  ∀ front bytes back e, chunks = front ++ bytes :: back →
    results[front.length]? = some (.error e) →
      ∃ k, Offends fromStr maxFrameBytes (seen ++ (front ++ [bytes]).flatten) k
        ∧ (returned (results.drop (front.length + 1))).Sublist
          (((completeLines lf (seen ++ chunks.flatten)).drop (k + 1)).filterMap (parseLine fromStr))

/-- A faithful run answers as the reference does, and resumes behind each offending line. -/
theorem Tracks.pushAll {maxFrameBytes : Nat} : ∀ {chunks : List (List UInt8)} {r : Reference}
    {d : JsonLineDecoder}, Tracks maxFrameBytes r d → d.FaithfulRun fromStr chunks →
    (d.pushAll fromStr chunks).1 = (r.pushAll fromStr maxFrameBytes chunks).1
      ∧ ResumesBehind fromStr maxFrameBytes r.all chunks (d.pushAll fromStr chunks).1 := by
  intro chunks
  induction chunks with
  | nil =>
    intro r d _ _
    refine ⟨rfl, fun front bytes back e hc => ?_⟩
    exact absurd hc.symm (by simp)
  | cons first chunks ih =>
    intro r d ht h
    have hstep := ht.push fromStr h.1
    obtain ⟨hresults, hresumes⟩ := ih hstep.tracks h.2
    have hall := Reference.push_all fromStr maxFrameBytes r first
    rw [pushAll_cons]
    refine ⟨?_, ?_⟩
    · rw [hstep.result, hresults]
      rfl
    · intro front bytes back e hc hr
      cases front with
      | nil =>
        cases hc
        rw [length_nil, getElem?_cons_zero, Option.some.injEq, hstep.result] at hr
        obtain ⟨k, hk, hoff⟩ := hstep.offends e hr
        have hvalues := Reference.pushAll_values fromStr maxFrameBytes chunks
          (r.push fromStr maxFrameBytes first).2
        rw [hall, hk, ← hresults, append_assoc] at hvalues
        rw [hall] at hoff
        refine ⟨k, ?_, hvalues⟩
        rw [nil_append, flatten_singleton]
        exact hoff
      | cons first' front =>
        cases hc
        obtain ⟨k, hoff, hvalues⟩ := hresumes front bytes back e rfl hr
        rw [hall, append_assoc] at hoff hvalues
        exact ⟨k, hoff, hvalues⟩

namespace JsonLineDecoder

/-- **No frame is made up.** In a run of faithful pushes on a fresh decoder the answers are those
of the reference decoder; the values are the parses of lines of what was pushed, in order and at
most one a line; and behind a failed push they come from lines behind the offending one. -/
theorem pushAll_recovers (maxFrameBytes : Nat) (chunks : List (List UInt8))
    (h : (new maxFrameBytes).FaithfulRun fromStr chunks) :
    ((new maxFrameBytes).pushAll fromStr chunks).1
        = (Reference.start.pushAll fromStr maxFrameBytes chunks).1
      ∧ (returned ((new maxFrameBytes).pushAll fromStr chunks).1).Sublist
        ((completeLines lf chunks.flatten).filterMap (parseLine fromStr))
      ∧ ResumesBehind fromStr maxFrameBytes [] chunks
        ((new maxFrameBytes).pushAll fromStr chunks).1 := by
  obtain ⟨hresults, hresumes⟩ := (tracks_start maxFrameBytes).pushAll h
  refine ⟨hresults, ?_, hresumes⟩
  rw [hresults]
  exact Reference.pushAll_values fromStr maxFrameBytes chunks .start

/-- A line that outgrows the limit, goes on, and ends in front of a good one. -/
def overrun : List (List UInt8) := ["7\n12345", "678", "9\n3\n", "\n"].map ascii

/-- Three pushes fail on the long line, and the fourth goes on behind it. -/
theorem pushAll_recovers_overrun : (new 2).FaithfulRun parseNumber overrun
    ∧ ((new 2).pushAll parseNumber overrun).1.map Except.toOption = [none, none, none, some [3]]
    ∧ (returned ((new 2).pushAll parseNumber overrun).1).Sublist [7, 123456789, 3] := by
  have hrun : (new 2).FaithfulRun parseNumber overrun := by
    refine ⟨?_, ?_, ?_, ?_, trivial⟩ <;> decide +kernel
  have hlines : (completeLines lf overrun.flatten).filterMap (parseLine parseNumber)
      = [7, 123456789, 3] := by decide +kernel
  refine ⟨hrun, by decide +kernel, ?_⟩
  rw [← hlines]
  exact (pushAll_recovers 2 overrun hrun).2.1

/-- A refused chunk is forgotten, and the bytes around it become a line that nobody sent: the only
line is 1234567, the decoder returns 17. And a line that was reported as too long is decoded after
all when its line feed arrives. -/
theorem push_refused_fabricates :
    (completeLines lf (["1", "23456", "7\n"].map ascii).flatten).filterMap (parseLine parseNumber)
        = [1234567]
      ∧ ((new 4).pushAll parseNumber (["1", "23456", "7\n"].map ascii)).1
        = [.ok [], .error (.protocol frameTooLong), .ok [17]]
      ∧ ((new 2).pushAll parseNumber (["7\n12\r", "\n"].map ascii)).1
        = [.error (.protocol frameTooLong), .ok [12]] :=
  ⟨by decide +kernel, by decide +kernel, by decide +kernel⟩

end JsonLineDecoder

end GtaClaw.Mcp
