import GtaClaw.Lib.Newlines
import GtaClaw.Lib.Strings
import GtaClaw.Provider.Sse

/-!
# The grammar of an event stream

What a stream says when all of it is at hand: take off the byte-order mark, cut at the
ends of lines, give up a last line without an end, and read the lines one by one. A blank
line sends the event that the data fields before it have put together, and so does the
end of the stream.

`decode` reads the lines within limits, and stops at the first line that they refuse. The
decoder does the same (`decodeChunks_eq_decode`): it holds the fields of the event joined
into one text (`Reads`), and the bytes of a line until the line ends (`linewise`).
-/

namespace GtaClaw.Provider

open Lib List

/-! ## Reading a whole stream -/

/-- The fields of the event that is being put together, and those that outlive it. -/
structure Fields where
  /-- The values of the data fields, in their order. -/
  data : List String
  event : String
  lastId : Option String
  retry : Option Nat
  deriving DecidableEq, Repr

inductive LineKind where
  | blank
  | comment
  | field (name value : String)
  deriving DecidableEq, Repr

/-- What stands in front of the first colon. -/
def fieldName (line : String) : String := String.ofList (line.toList.takeWhile (· ≠ ':'))

/-- What stands behind the first colon, less one space. -/
def fieldValue (line : String) : String :=
  let behind := (line.toList.dropWhile (· ≠ ':')).drop 1
  String.ofList ((List.isPrefixOf? [' '] behind).getD behind)

/-- The number that decimal digits stand for, if it is one of 64 bits. -/
def decimal (value : String) : Option Nat :=
  if value ≠ "" ∧ value.toList.all Char.isDigit then
    (some (Nat.ofDigits 10 (value.toList.reverse.map fun c => c.toNat - '0'.toNat))).filter
      (· ≤ u64Max)
  else none

def lineKind (line : String) : LineKind :=
  if line.isEmpty then .blank
  else if line.toList.head? = some ':' then .comment
  else .field (fieldName line) (fieldValue line)

theorem splitField_eq (line : String) : splitField line = (fieldName line, fieldValue line) := by
  unfold splitField fieldName fieldValue
  rw [span_eq_takeWhile_dropWhile]
  cases line.toList.dropWhile (· ≠ ':') with
  | nil => rfl
  | cons colon behind =>
    cases behind with
    | nil => rfl
    | cons c behind =>
      by_cases hc : c = ' '
      · subst hc
        rfl
      · simp [isPrefixOf?, hc, Ne.symm hc]

theorem retryMillis_eq (value : String) : retryMillis value = decimal value := by
  unfold retryMillis decimal
  have hvalue : value.toList.foldl (fun n digit => 10 * n + (digit.toNat - '0'.toNat)) 0
      = Nat.ofDigits 10 (value.toList.reverse.map fun c => c.toNat - '0'.toNat) := by
    rw [Nat.ofDigits_eq_foldr, foldr_map, foldr_reverse]
    refine congrArg (fun f => value.toList.foldl f 0) ?_
    funext n digit
    exact Nat.add_comm _ _
  have hdigits : (value.isEmpty ∨ ¬value.toList.all Char.isDigit)
      ↔ ¬ (value ≠ "" ∧ value.toList.all Char.isDigit) := by
    rw [String.isEmpty_iff, not_and_or, not_not]
  simp only [hvalue, hdigits, ite_not, Option.filter_some, decide_eq_true_eq]

namespace Fields

def empty : Fields := ⟨[], "", none, none⟩

variable (fields : Fields)

/-- The data of the event: its fields, one to a line. -/
def payload : String := "\n".intercalate fields.data

def toEvent : SseEvent where
  event := if fields.event.isEmpty then "message" else fields.event
  data := fields.payload
  id := fields.lastId
  retry := fields.retry

def set (name value : String) : Fields :=
  if name = "event" then { fields with event := value }
  else if name = "data" then { fields with data := fields.data ++ [value] }
  else if name = "id" then
    if value.toList.contains '\x00' then fields else { fields with lastId := some value }
  else if name = "retry" then { fields with retry := (decimal value).or fields.retry }
  else fields

/-- The fields behind one line, and the event it sends. -/
def read (line : String) : Fields × List SseEvent :=
  match lineKind line with
  | .blank =>
    ({ fields with data := [], event := "" },
      if fields.data.isEmpty then [] else [fields.toEvent])
  | .comment => (fields, [])
  | .field name value => (fields.set name value, [])

/-- The events of the lines of a stream, up to its end. -/
def events : Fields → List String → List SseEvent
  | fields, [] => if fields.data.isEmpty then [] else [fields.toEvent]
  | fields, line :: rest => (fields.read line).2 ++ events (fields.read line).1 rest

end Fields

variable (bytes : List UInt8)

def stripBom : List UInt8 := (bom.isPrefixOf? bytes).getD bytes

/-- The lines of a stream, cut at every `\r\n`, `\n` or lone `\r`. -/
def streamLines : Lines UInt8 := splitLines cr lf (stripBom bytes)

/-- The events of a stream whose complete lines are text. -/
def streamEvents : List SseEvent :=
  Fields.empty.events ((streamLines bytes).complete.filterMap fromUtf8)

/-! ## Reading within limits -/

namespace Fields

/-- What is held against the limit when a line is read. A data field is charged a separator,
also where it is the first and has none. -/
def charge (fields : Fields) (line : String) : Nat :=
  match lineKind line with
  | .field name value =>
    if name = "data" then fields.payload.utf8ByteSize + value.utf8ByteSize + 1 else 0
  | _ => 0

/-- The events of lines within limits, or what is wrong with the first line that is refused.
`size` is what a line makes of its event, and `last` has no end. -/
def decodeLines (size : Fields → String → Nat) (maxLineBytes maxEventBytes : Nat)
    (last : List UInt8) : Fields → List (List UInt8) → Except StreamDecodeError (List SseEvent)
  | fields, [] =>
    if last.length ≤ maxLineBytes then .ok (fields.events [])
    else .error (.lineTooLong maxLineBytes)
  | fields, line :: rest =>
    if line.length ≤ maxLineBytes then
      match fromUtf8 line with
      | none => .error .invalidUtf8
      | some text =>
        if size fields text ≤ maxEventBytes then
          (decodeLines size maxLineBytes maxEventBytes last (fields.read text).1 rest).map
            ((fields.read text).2 ++ ·)
        else .error (.eventTooLarge maxEventBytes)
    else .error (.lineTooLong maxLineBytes)

def decode (size : Fields → String → Nat) (maxLineBytes maxEventBytes : Nat) (fields : Fields)
    (lines : Lines UInt8) : Except StreamDecodeError (List SseEvent) :=
  decodeLines size maxLineBytes maxEventBytes lines.unterminated fields lines.complete

variable {fields : Fields}

theorem data_set (name value : String) :
    (fields.set name value).data =
      if name = "data" then fields.data ++ [value] else fields.data := by
  unfold set
  repeat' split
  all_goals first | rfl | simp_all

theorem payload_of_data (h : fields.data = []) : fields.payload.utf8ByteSize = 0 := by
  rw [payload, h]
  rfl

theorem size_payload_set (name value : String) :
    (fields.set name value).payload.utf8ByteSize =
      if name = "data" then
        if fields.data = [] then value.utf8ByteSize
        else fields.payload.utf8ByteSize + 1 + value.utf8ByteSize
      else fields.payload.utf8ByteSize := by
  rw [payload, data_set]
  split
  · split
    · rename_i hnil
      simp [hnil]
    · rename_i hne
      rw [String.intercalate_append_of_ne_nil hne (by simp)]
      simp only [String.utf8ByteSize_append, String.intercalate_singleton]
      rfl
  · rfl

/-- A line either sends the event or leaves it at least as large. -/
theorem read_grows (hdata : fields.data ≠ []) (line : String) :
    fields.toEvent ∈ (fields.read line).2 ∨ (fields.read line).1.data ≠ [] ∧
      fields.payload.utf8ByteSize ≤ (fields.read line).1.payload.utf8ByteSize := by
  unfold read
  cases lineKind line with
  | blank => simp [hdata]
  | comment => exact .inr ⟨hdata, le_rfl⟩
  | field name value =>
    refine .inr ?_
    rw [data_set, size_payload_set, if_neg hdata]
    split
    · exact ⟨by simp, by omega⟩
    · exact ⟨hdata, le_rfl⟩

theorem exists_payload_le (hdata : fields.data ≠ []) (lines : List String) :
    ∃ event ∈ fields.events lines, fields.payload.utf8ByteSize ≤ event.data.utf8ByteSize := by
  induction lines generalizing fields with
  | nil => exact ⟨fields.toEvent, by simp [events, hdata], le_rfl⟩
  | cons line lines ih =>
    rcases read_grows hdata line with hsent | ⟨hnext, hle⟩
    · exact ⟨fields.toEvent, mem_append_left _ hsent, le_rfl⟩
    · obtain ⟨event, hmem, hsize⟩ := ih hnext
      exact ⟨event, mem_append_right _ hmem, hle.trans hsize⟩

theorem charge_le_succ (line : String) :
    fields.charge line ≤ (fields.read line).1.payload.utf8ByteSize + 1 := by
  unfold charge read
  cases lineKind line with
  | blank => exact Nat.zero_le _
  | comment => exact Nat.zero_le _
  | field name value =>
    dsimp only
    rw [size_payload_set]
    split
    · split_ifs with hnil
      · rw [payload_of_data hnil]
        omega
      · omega
    · omega

theorem decodeLines_eq_ok {maxLineBytes maxEventBytes : Nat} {last : List UInt8}
    {lines : List (List UInt8)} (hlast : last.length ≤ maxLineBytes)
    (hlines : ∀ line ∈ lines, line.length ≤ maxLineBytes)
    (htext : ∀ line ∈ lines, (fromUtf8 line).isSome) (hpos : 0 < maxEventBytes)
    (hsize : ∀ event ∈ fields.events (lines.filterMap fromUtf8),
      event.data.utf8ByteSize < maxEventBytes) :
    fields.decodeLines charge maxLineBytes maxEventBytes last lines =
      .ok (fields.events (lines.filterMap fromUtf8)) := by
  induction lines generalizing fields with
  | nil => exact if_pos hlast
  | cons line lines ih =>
    obtain ⟨hline, hlines⟩ := forall_mem_cons.mp hlines
    obtain ⟨hfirst, htext⟩ := forall_mem_cons.mp htext
    obtain ⟨text, htaken⟩ := Option.isSome_iff_exists.mp hfirst
    rw [filterMap_cons_some htaken, events, forall_mem_append] at hsize
    have hcharge : fields.charge text ≤ maxEventBytes := by
      have hle := fields.charge_le_succ text
      by_cases hdata : (fields.read text).1.data = []
      · rw [payload_of_data hdata] at hle
        omega
      · obtain ⟨event, hmem, hgrown⟩ := exists_payload_le hdata (lines.filterMap fromUtf8)
        have hlt := hsize.2 event hmem
        omega
    rw [decodeLines, if_pos hline, htaken]
    dsimp only
    rw [if_pos hcharge, ih hlines htext hsize.2, filterMap_cons_some htaken]
    rfl

end Fields

namespace SseDecoder

/-! ## Lines make events -/

/-- The decoder holds these fields. -/
structure Reads (decoder : SseDecoder) (fields : Fields) : Prop where
  data : decoder.data = fields.payload
  sawDataField : decoder.sawDataField = !fields.data.isEmpty
  event : decoder.event = fields.event
  lastId : decoder.lastId = fields.lastId
  retry : decoder.retry = fields.retry

variable {decoder : SseDecoder} {fields : Fields} {rest : List UInt8}

theorem Reads.dispatch (h : decoder.Reads fields) : decoder.dispatch.2 = [fields.toEvent] := by
  simp [SseDecoder.dispatch, Fields.toEvent, h.event, h.data, h.lastId, h.retry]

theorem Reads.finish (h : decoder.Reads fields) : decoder.finish.2 = fields.events [] := by
  unfold SseDecoder.finish Fields.events
  rw [h.sawDataField]
  cases fields.data.isEmpty with
  | true => rfl
  | false => exact h.dispatch

/-- One field of a line that is neither blank nor a comment. -/
theorem Reads.setField (h : decoder.Reads fields) {name value : String} (hsize : name = "data" →
      fields.payload.utf8ByteSize + value.utf8ByteSize + 1 ≤ decoder.maxEventBytes) :
    ∃ next, decoder.setField name value = .ok (next, []) ∧
      next.Reads (fields.set name value) := by
  unfold SseDecoder.setField Fields.set
  split_ifs with hevent hdata hlarge hsaw hid hzero hretry
  · exact ⟨_, rfl, { h with event := rfl }⟩
  · exact absurd (h.data ▸ hsize hdata) (by omega)
  · have hne : fields.data ≠ [] := by simpa [h.sawDataField] using hsaw
    refine ⟨_, rfl, { h with data := ?_, sawDataField := by simp }⟩
    rw [Fields.payload, String.intercalate_append_of_ne_nil hne (by simp), h.data]
    rfl
  · have hnil : fields.data = [] := by simpa [h.sawDataField] using hsaw
    refine ⟨_, rfl, { h with data := ?_, sawDataField := by simp }⟩
    simp [Fields.payload, h.data, hnil]
  · exact ⟨decoder, rfl, h⟩
  · exact ⟨_, rfl, { h with lastId := rfl }⟩
  · rw [retryMillis_eq]
    cases decimal value with
    | some millis => exact ⟨_, rfl, { h with retry := rfl }⟩
    | none => exact ⟨decoder, rfl, h⟩
  · exact ⟨decoder, rfl, h⟩

theorem acceptLine_eq (decoder : SseDecoder) (line : String) :
    decoder.acceptLine line = match lineKind line with
      | .blank =>
        if decoder.sawDataField then .ok decoder.dispatch
        else .ok ({ decoder with event := "" }, [])
      | .comment => .ok (decoder, [])
      | .field name value => decoder.setField name value := by
  unfold acceptLine lineKind
  rw [splitField_eq]
  split
  · rfl
  split <;> rfl

/-- One line, as long as the event it belongs to is not too large. -/
theorem Reads.acceptLine (h : decoder.Reads fields) {line : String}
    (hsize : fields.charge line ≤ decoder.maxEventBytes) :
    ∃ next, decoder.acceptLine line = .ok (next, (fields.read line).2) ∧
      next.Reads (fields.read line).1 := by
  unfold Fields.charge at hsize
  rw [acceptLine_eq, Fields.read]
  cases hkind : lineKind line with
  | blank =>
    rw [h.sawDataField]
    cases hdata : fields.data.isEmpty with
    | true =>
      refine ⟨_, rfl, ⟨?_, rfl, rfl, h.lastId, h.retry⟩⟩
      rw [h.data, Fields.payload, isEmpty_iff.mp hdata]
      rfl
    | false =>
      refine ⟨decoder.dispatch.1, ?_, ⟨rfl, rfl, rfl, h.lastId, h.retry⟩⟩
      show Except.ok (decoder.dispatch.1, decoder.dispatch.2) = _
      rw [h.dispatch]
      rfl
  | comment => exact ⟨decoder, rfl, h⟩
  | field name value =>
    rw [hkind] at hsize
    exact h.setField fun hname => (if_pos hname).symm.trans_le hsize

/-! ## Bytes make lines -/

/-- As long as these bytes do not begin inside an end, they are as good as the lines they
make. -/
def Linewise : Prop :=
  ∀ (decoder : SseDecoder) (fields : Fields), decoder.Reads fields → decoder.checkedBom = true →
    decoder.line.length ≤ decoder.maxLineBytes →
    (decoder.pendingCr = true → bytes.head? ≠ some lf) →
    outcome (feed pushOne decoder bytes) =
      fields.decode Fields.charge decoder.maxLineBytes decoder.maxEventBytes
        ((splitLines cr lf bytes).after decoder.line)

theorem Reads.pendingCr (h : decoder.Reads fields) {line : List UInt8} {pendingCr : Bool} :
    SseDecoder.Reads { decoder with line, pendingCr } fields :=
  { h with }

/-- The end of a line: its text is read, and the rest decides. -/
theorem Reads.feed_end (h : decoder.Reads fields)
    (hline : decoder.line.length ≤ decoder.maxLineBytes) {byte : UInt8} {pending : Bool}
    (hone : decoder.pushOne byte = endLine { decoder with pendingCr := pending })
    {lines : Lines UInt8}
    (hrest : ∀ next fields, SameFraming { decoder with line := [], pendingCr := pending } next →
      next.Reads fields → outcome (feed pushOne next rest) =
        fields.decode Fields.charge next.maxLineBytes next.maxEventBytes lines) :
    outcome (feed pushOne decoder (byte :: rest)) =
      fields.decode Fields.charge decoder.maxLineBytes decoder.maxEventBytes
        (lines.cons decoder.line) := by
  rw [Fields.decode, Lines.cons, Fields.decodeLines, if_pos hline]
  rw [endLine] at hone
  cases htext : fromUtf8 decoder.line with
  | none =>
    rw [htext] at hone
    rw [feed_error hone]
    rfl
  | some text =>
    rw [htext] at hone
    have hbegin : Reads { decoder with line := [], pendingCr := pending } fields := h.pendingCr
    dsimp only
    split_ifs with hsize
    · obtain ⟨next, haccept, hnext⟩ := hbegin.acceptLine hsize
      have hframe := acceptLine_framing haccept
      rw [feed_ok (hone.trans haccept), outcome_append, hrest next _ hframe hnext,
        hframe.maxLineBytes, hframe.maxEventBytes]
      rfl
    · have hlarge : SseDecoder.acceptLine { decoder with line := [], pendingCr := pending } text =
          .error (.eventTooLarge decoder.maxEventBytes) := by
        unfold Fields.charge at hsize
        rw [acceptLine_eq]
        split at hsize
        · rename_i hkind
          split at hsize
          · rename_i hname
            rw [hkind, hname]
            exact if_pos (Nat.lt_of_not_le (hbegin.data ▸ hsize))
          · omega
        · omega
      rw [feed_error (hone.trans hlarge)]
      rfl

theorem Linewise.behind (h : Linewise rest) {next : SseDecoder} (hnext : next.Reads fields)
    (hchecked : next.checkedBom = true) (hline : next.line = [])
    (hpending : next.pendingCr = true → rest.head? ≠ some lf) :
    outcome (feed pushOne next rest) =
      fields.decode Fields.charge next.maxLineBytes next.maxEventBytes (splitLines cr lf rest) := by
  rw [h next fields hnext hchecked (by simp [hline]) hpending, hline, Lines.after_nil]

theorem linewise (bytes : List UInt8) : Linewise bytes := by
  induction bytes using newline_induction cr lf with
  | nil =>
    intro decoder fields h _ hline _
    rw [splitLines, Lines.after, append_nil]
    show Except.ok ([] ++ decoder.finish.2) = if _ then _ else _
    rw [if_pos hline, nil_append, h.finish]
  | crlf rest ih =>
    intro decoder fields h hchecked hline _
    rw [splitLines_crlf, Lines.after_cons, append_nil]
    have hone : decoder.pushOne cr = endLine { decoder with pendingCr := true } := by
      simp [pushOne, hchecked, pushByte, cr, lf]
    refine h.feed_end hline hone (fun next fields hnext hreads => ?_)
    have hcheckedNext : next.checkedBom = true := hnext.checkedBom.trans hchecked
    -- The line feed behind the carriage return only clears the mark of the return.
    have hskip : next.pushOne lf = .ok ({ next with pendingCr := false }, []) := by
      rw [pushOne, if_pos hcheckedNext]
      exact if_pos ⟨hnext.pendingCr, rfl⟩
    rw [feed_silent hskip]
    exact ih.behind hreads.pendingCr hcheckedNext hnext.line (by simp)
  | cr_alone rest hrest ih =>
    intro decoder fields h hchecked hline _
    rw [splitLines_cr hrest, Lines.after_cons, append_nil]
    have hone : decoder.pushOne cr = endLine { decoder with pendingCr := true } := by
      simp [pushOne, hchecked, pushByte, cr, lf]
    refine h.feed_end hline hone (fun next fields hnext hreads => ?_)
    exact ih.behind hreads (hnext.checkedBom.trans hchecked) hnext.line (fun _ => hrest)
  | lf_alone rest ih =>
    intro decoder fields h hchecked hline hpending
    have hne : cr ≠ lf := by decide
    rw [splitLines_lf hne, Lines.after_cons, append_nil]
    have hone : decoder.pushOne lf = endLine { decoder with pendingCr := false } := by
      have hpending : ¬decoder.pendingCr = true := fun h => hpending h rfl
      simp [pushOne, hchecked, pushByte, hpending, hne.symm]
    refine h.feed_end hline hone (fun next fields hnext hreads => ?_)
    refine ih.behind hreads (hnext.checkedBom.trans hchecked) hnext.line fun hpending => ?_
    cases hpending.symm.trans hnext.pendingCr
  | other byte rest hcr hlf ih =>
    intro decoder fields h hchecked hline _
    rw [splitLines_other hcr hlf, Lines.after_after]
    have hone : decoder.pushOne byte =
        if decoder.line.length ≥ decoder.maxLineBytes then
          .error (.lineTooLong decoder.maxLineBytes)
        else .ok ({ decoder with pendingCr := false, line := decoder.line ++ [byte] }, []) := by
      simp [pushOne, hchecked, pushByte, hcr, hlf]
    split at hone
    · rw [feed_error hone]
      obtain ⟨complete, unterminated⟩ := splitLines cr lf rest
      cases complete with
      | nil => exact (if_neg (by simp [Lines.after]; omega)).symm
      | cons first complete => exact (if_neg (by simp; omega)).symm
    · rw [feed_silent hone]
      exact ih { decoder with pendingCr := false, line := decoder.line ++ [byte] } fields
        h.pendingCr hchecked (by simp; omega) (by simp)

/-! ## The start of a stream -/

theorem stripBom_of_ne {seen : Nat} (hseen : seen < bom.length) {byte : UInt8}
    (hbyte : byte ≠ bom[seen]) (rest : List UInt8) :
    stripBom (bom.take seen ++ byte :: rest) = bom.take seen ++ byte :: rest := by
  rw [stripBom]
  cases h : bom.isPrefixOf? (bom.take seen ++ byte :: rest) with
  | none => rfl
  | some tail =>
    have heq := congrArg (fun bytes => bytes[seen]?) (eq_append_of_isPrefixOf? h)
    have hlength : (bom.take seen).length = seen := length_take_of_le (by omega)
    simp only [getElem?_append_left hseen, getElem?_eq_getElem hseen] at heq
    rw [getElem?_append_right (by omega), hlength, Nat.sub_self] at heq
    exact absurd (Option.some.inj heq) hbyte

/-- How the byte-order mark is dealt with: the stream ends inside it, or the decoder goes on
behind it, with what was taken for one in its line. -/
theorem feed_start (bytes : List UInt8) (hchecked : decoder.checkedBom = false)
    (hline : decoder.line = []) (hseen : decoder.bomProgress < bom.length) :
    (∃ seen, bom.take decoder.bomProgress ++ bytes = bom.take seen ∧ seen < bom.length ∧
      feed pushOne decoder bytes = ([], .ok { decoder with bomProgress := seen })) ∨
    ∃ bomProgress line rest, line.length < bom.length ∧
      feed pushOne decoder bytes =
        feed pushOne { decoder with checkedBom := true, bomProgress, line } rest ∧
      streamLines (bom.take decoder.bomProgress ++ bytes) = (splitLines cr lf rest).after line := by
  induction bytes generalizing decoder with
  | nil => exact .inl ⟨decoder.bomProgress, append_nil _, hseen, rfl⟩
  | cons byte bytes ih =>
    by_cases hbyte : byte = bom[decoder.bomProgress]
    · have htake : bom.take decoder.bomProgress ++ byte :: bytes =
          bom.take (decoder.bomProgress + 1) ++ bytes := by
        rw [take_succ_eq_append_getElem hseen, hbyte, append_assoc]
        rfl
      rw [htake, feed_silent (pushOne_mark hchecked hseen hbyte)]
      by_cases hlast : decoder.bomProgress + 1 = bom.length
      · rw [beq_iff_eq.mpr hlast]
        refine .inr ⟨_, decoder.line, bytes, ?_, rfl, ?_⟩
        · rw [hline]
          exact Nat.zero_lt_succ _
        · rw [hline, Lines.after_nil, hlast, take_length, streamLines, stripBom,
            isPrefixOf?_append]
          rfl
      · have hno : (decoder.bomProgress + 1 == bom.length) = decoder.checkedBom := by
          rw [hchecked]
          exact beq_false_of_ne hlast
        have hlt : decoder.bomProgress + 1 < bom.length := by omega
        rw [hno]
        exact @ih { decoder with bomProgress := decoder.bomProgress + 1 } hchecked hline hlt
    · refine .inr ⟨_, _, byte :: bytes, ?_,
        feed_congr (pushOne_noMark hchecked hseen hbyte) bytes, ?_⟩
      · rw [hline, nil_append, length_take_of_le (by omega)]
        exact hseen
      · have hcr : cr ∉ bom.take decoder.bomProgress :=
          fun hmem => absurd (mem_of_mem_take hmem) (by decide)
        have hlf : lf ∉ bom.take decoder.bomProgress :=
          fun hmem => absurd (mem_of_mem_take hmem) (by decide)
        rw [hline, nil_append, ← splitLines_append_of_notMem hcr hlf, streamLines,
          stripBom_of_ne hseen hbyte]

theorem streamLines_bom {seen : Nat} (hseen : seen < bom.length) :
    streamLines (bom.take seen) = ⟨[], bom.take seen⟩ := by
  have hcases : seen = 0 ∨ seen = 1 ∨ seen = 2 := by
    have hlength : bom.length = 3 := rfl
    omega
  rcases hcases with rfl | rfl | rfl <;> decide

/-- The decoder reads a stream as the grammar does. What it takes for the beginning of a mark
is not counted when it goes into the line, so that has to fit. -/
theorem decodeChunks_eq_decode {maxLineBytes maxEventBytes : Nat} {chunks : List (List UInt8)}
    (hfits : bom.length ≤ max maxLineBytes 1 ∨
      ∀ line ∈ (streamLines chunks.flatten).all, line.length ≤ max maxLineBytes 1) :
    (withLimits maxLineBytes maxEventBytes).decodeChunks chunks =
      Fields.empty.decode Fields.charge (max maxLineBytes 1) (max maxEventBytes 1)
        (streamLines chunks.flatten) := by
  rw [decodeChunks_eq_feed (bomOpen_withLimits maxLineBytes maxEventBytes)]
  rcases @feed_start (withLimits maxLineBytes maxEventBytes) chunks.flatten rfl rfl
      (Nat.zero_lt_succ _) with ⟨seen, hshort, hseen, hfeed⟩ | ⟨progress, line, rest, hline, hfeed, hcut⟩
  · have hbytes : chunks.flatten = bom.take seen := hshort
    have hlength : (bom.take seen).length ≤ max maxLineBytes 1 := by
      rcases hfits with hfits | hfits
      · rw [length_take]
        omega
      · rw [hbytes, streamLines_bom hseen] at hfits
        exact hfits _ mem_cons_self
    rw [hfeed, hbytes, streamLines_bom hseen, Fields.decode, Fields.decodeLines, if_pos hlength]
    rfl
  · have hcut : streamLines chunks.flatten = (splitLines cr lf rest).after line := hcut
    have hlength : line.length ≤ max maxLineBytes 1 := by
      rcases hfits with hfits | hfits
      · omega
      · obtain ⟨whole, hmem, hbegin⟩ := Lines.exists_mem_after line (splitLines cr lf rest)
        exact hbegin.length_le.trans (hfits whole (hcut ▸ hmem))
    rw [hfeed, hcut]
    exact linewise rest { withLimits maxLineBytes maxEventBytes with
      checkedBom := true, bomProgress := progress, line } _
        ⟨rfl, rfl, rfl, rfl, rfl⟩ rfl hlength nofun

end SseDecoder

/-- In whatever chunks a stream arrives, the decoder sends the events of the whole stream. -/
theorem decoder_follows_grammar (maxLineBytes maxEventBytes : Nat) (bytes : List UInt8)
    (chunks : List (List UInt8)) (hchunks : chunks.flatten = bytes)
    (hlines : ∀ line ∈ (streamLines bytes).all, line.length < max maxLineBytes 1)
    (htext : ∀ line ∈ (streamLines bytes).complete, (fromUtf8 line).isSome)
    (hpayload : ∀ event ∈ streamEvents bytes,
      event.data.utf8ByteSize < max maxEventBytes 1) :
    (SseDecoder.withLimits maxLineBytes maxEventBytes).decodeChunks chunks =
      .ok (streamEvents bytes) := by
  subst hchunks
  have hfits := fun line hmem => (hlines line hmem).le
  rw [SseDecoder.decodeChunks_eq_decode (.inr hfits)]
  rw [Lines.all, forall_mem_append, forall_mem_singleton] at hfits
  exact Fields.decodeLines_eq_ok hfits.2 hfits.1 htext (by omega) hpayload

/-- A mark, a pair `\r\n` and a code point that are each cut between two chunks. -/
theorem decoder_follows_grammar_cut :
    (SseDecoder.withLimits 64 64).decodeChunks
        [[0xEF, 0xBB], [], [0xBF, 100, 97, 116, 97, 58, 32, 0xC3], [0xA9, 13], [10, 13], [10]] =
      .ok [⟨"message", "é", none, none⟩] := by
  have h := decoder_follows_grammar 64 64 _
    [[0xEF, 0xBB], [], [0xBF, 100, 97, 116, 97, 58, 32, 0xC3], [0xA9, 13], [10, 13], [10]] rfl
    (by decide +kernel) (by decide +kernel) (by decide +kernel)
  rw [h]
  decide +kernel

end GtaClaw.Provider
