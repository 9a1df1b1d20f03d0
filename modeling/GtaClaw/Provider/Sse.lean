import GtaClaw.Lib.Feed
import GtaClaw.Provider.Circuit

/-!
# The event-stream decoder

`SseDecoder` reads `text/event-stream` from chunks of bytes. It keeps the line it is in,
the fields of the event that is being put together, whether the last byte was a carriage
return, and how much of a byte-order mark it has seen at the very start.

`push` works through a chunk byte by byte, but it strips the byte-order mark off the chunk
first. `pushOne` is the decoder that does both for each byte; `push_eq_feed` says that the
two agree, so that only bytes have to be looked at and no chunks. The events that were
complete before an error are not in the result of `push`, and `feed` still has them.
-/

namespace GtaClaw.Provider

open Lib

/-- `String::from_utf8`. -/
def fromUtf8 (bytes : List UInt8) : Option String := String.fromUTF8? ⟨bytes.toArray⟩

def cr : UInt8 := 13

def lf : UInt8 := 10

def bom : List UInt8 := [0xEF, 0xBB, 0xBF]

inductive StreamDecodeError where
  | lineTooLong (limit : Nat)
  | eventTooLarge (limit : Nat)
  | invalidUtf8
  deriving DecidableEq, Repr

/-- One dispatched event. The retry delay is in milliseconds. -/
structure SseEvent where
  event : String
  data : String
  id : Option String
  retry : Option Nat
  deriving DecidableEq, Repr

structure SseDecoder where
  line : List UInt8
  data : String
  event : String
  lastId : Option String
  retry : Option Nat
  sawDataField : Bool
  pendingCr : Bool
  checkedBom : Bool
  bomProgress : Nat
  maxLineBytes : Nat
  maxEventBytes : Nat
  deriving DecidableEq, Repr

/-! ## Fields -/

/-- `str::split_once(':')`, with one space taken off the front of the value. A line without
a colon has an empty value. -/
def splitField (line : String) : String × String :=
  match line.toList.span (· ≠ ':') with
  | (field, _ :: ' ' :: value) => (String.ofList field, String.ofList value)
  | (field, _ :: value) => (String.ofList field, String.ofList value)
  | (field, []) => (String.ofList field, "")

/-- The retry delay that a value gives: decimal digits only, and in the range of a `u64`. -/
def retryMillis (value : String) : Option Nat :=
  if value.isEmpty ∨ ¬value.toList.all Char.isDigit then none
  else
    let millis := value.toList.foldl (fun n digit => 10 * n + (digit.toNat - '0'.toNat)) 0
    if millis ≤ u64Max then some millis else none

namespace SseDecoder

/-- `with_limits`: a limit is at least one byte. -/
def withLimits (maxLineBytes maxEventBytes : Nat) : SseDecoder where
  line := []
  data := ""
  event := ""
  lastId := none
  retry := none
  sawDataField := false
  pendingCr := false
  checkedBom := false
  bomProgress := 0
  maxLineBytes := max maxLineBytes 1
  maxEventBytes := max maxEventBytes 1

def dispatch (decoder : SseDecoder) : SseDecoder × List SseEvent :=
  ({ decoder with data := "", event := "", sawDataField := false },
    [{ event := if decoder.event.isEmpty then "message" else decoder.event
       data := decoder.data
       id := decoder.lastId
       retry := decoder.retry }])

/-- The fields of `end_line`. -/
def setField (decoder : SseDecoder) (field value : String) :
    Except StreamDecodeError (SseDecoder × List SseEvent) :=
  if field = "event" then .ok ({ decoder with event := value }, [])
  else if field = "data" then
    if decoder.data.utf8ByteSize + value.utf8ByteSize + 1 > decoder.maxEventBytes then
      .error (.eventTooLarge decoder.maxEventBytes)
    else
      .ok ({ decoder with
        data := (if decoder.sawDataField then decoder.data ++ "\n" else decoder.data) ++ value
        sawDataField := true }, [])
  else if field = "id" then
    if value.toList.contains '\x00' then .ok (decoder, [])
    else .ok ({ decoder with lastId := some value }, [])
  else if field = "retry" then
    match retryMillis value with
    | some millis => .ok ({ decoder with retry := some millis }, [])
    | none => .ok (decoder, [])
  else .ok (decoder, [])

/-- The part of `end_line` that works on the text of the line. -/
def acceptLine (decoder : SseDecoder) (line : String) :
    Except StreamDecodeError (SseDecoder × List SseEvent) :=
  if line.isEmpty then
    if decoder.sawDataField then .ok decoder.dispatch
    else .ok ({ decoder with event := "" }, [])
  else if line.toList.head? = some ':' then .ok (decoder, [])
  else decoder.setField (splitField line).1 (splitField line).2

def endLine (decoder : SseDecoder) : Except StreamDecodeError (SseDecoder × List SseEvent) :=
  match fromUtf8 decoder.line with
  | none => .error .invalidUtf8
  | some line => acceptLine { decoder with line := [] } line

/-! ## Bytes and chunks -/

/-- One byte of the loop in `push`. -/
def pushByte (decoder : SseDecoder) (byte : UInt8) :
    Except StreamDecodeError (SseDecoder × List SseEvent) :=
  -- A line feed behind a carriage return belongs to the end that was already seen.
  if decoder.pendingCr ∧ byte = lf then .ok ({ decoder with pendingCr := false }, [])
  else if byte = cr then endLine { decoder with pendingCr := true }
  else if byte = lf then endLine { decoder with pendingCr := false }
  else if decoder.line.length ≥ decoder.maxLineBytes then
    .error (.lineTooLong decoder.maxLineBytes)
  else .ok ({ decoder with pendingCr := false, line := decoder.line ++ [byte] }, [])

/-- The loop of `push` behind the byte-order mark. -/
def pushLoop (decoder : SseDecoder) (events : List SseEvent) :
    List UInt8 → Except StreamDecodeError (SseDecoder × List SseEvent)
  | [] => .ok (decoder, events)
  | byte :: rest =>
    match decoder.pushByte byte with
    | .error error => .error error
    | .ok (next, completed) => pushLoop next (events ++ completed) rest

/-- The loop of `strip_byte_order_mark`. -/
def bomLoop (decoder : SseDecoder) : List UInt8 → SseDecoder × List UInt8
  | [] => ({ decoder with checkedBom := decoder.bomProgress == bom.length }, [])
  | byte :: rest =>
    if h : decoder.bomProgress < bom.length then
      if byte = bom[decoder.bomProgress] then
        bomLoop { decoder with bomProgress := decoder.bomProgress + 1 } rest
      else
        -- Not a byte-order mark: replay what was consumed as data.
        ({ decoder with
          checkedBom := true
          bomProgress := 0
          line := decoder.line ++ bom.take decoder.bomProgress }, byte :: rest)
    else ({ decoder with checkedBom := decoder.bomProgress == bom.length }, byte :: rest)

def stripByteOrderMark (decoder : SseDecoder) (chunk : List UInt8) : SseDecoder × List UInt8 :=
  if decoder.checkedBom then (decoder, chunk) else bomLoop decoder chunk

/-- Feed one chunk of bytes, and get every event it completed. -/
def push (decoder : SseDecoder) (chunk : List UInt8) :
    Except StreamDecodeError (SseDecoder × List SseEvent) :=
  let (decoder, chunk) := decoder.stripByteOrderMark chunk
  pushLoop decoder [] chunk

/-- Flush a trailing event. A line without an end is given up. -/
def finish (decoder : SseDecoder) : SseDecoder × List SseEvent :=
  let decoder := { decoder with line := [] }
  if decoder.sawDataField then decoder.dispatch else (decoder, [])

/-- The events of a stream that arrives in these chunks. -/
def decodeChunks (decoder : SseDecoder) :
    List (List UInt8) → Except StreamDecodeError (List SseEvent)
  | [] => .ok decoder.finish.2
  | chunk :: rest =>
    match decoder.push chunk with
    | .error error => .error error
    | .ok (next, events) =>
      match decodeChunks next rest with
      | .error error => .error error
      | .ok more => .ok (events ++ more)

/-! ## Chunks do not matter -/

/-- One byte of a stream, at its start or behind it. -/
def pushOne (decoder : SseDecoder) (byte : UInt8) :
    Except StreamDecodeError (SseDecoder × List SseEvent) :=
  if decoder.checkedBom then decoder.pushByte byte
  else if h : decoder.bomProgress < bom.length then
    if byte = bom[decoder.bomProgress] then
      .ok ({ decoder with
        bomProgress := decoder.bomProgress + 1
        checkedBom := decoder.bomProgress + 1 == bom.length }, [])
    else
      pushByte { decoder with
        checkedBom := true
        bomProgress := 0
        line := decoder.line ++ bom.take decoder.bomProgress } byte
  else decoder.pushByte byte

/-- What holds between two chunks: the mark is either dealt with, or not complete. -/
def BomOpen (decoder : SseDecoder) : Prop :=
  decoder.checkedBom = false → decoder.bomProgress < bom.length

theorem bomOpen_withLimits (maxLineBytes maxEventBytes : Nat) :
    (withLimits maxLineBytes maxEventBytes).BomOpen := by
  intro _
  show 0 < 3
  omega

variable {decoder : SseDecoder}

theorem bomOpen_of_checkedBom (h : decoder.checkedBom = true) : decoder.BomOpen := by
  intro hopen
  rw [h] at hopen
  cases hopen

/-- What the fields of a line have nothing to do with. -/
structure SameFraming (decoder next : SseDecoder) : Prop where
  line : next.line = decoder.line
  pendingCr : next.pendingCr = decoder.pendingCr
  checkedBom : next.checkedBom = decoder.checkedBom
  maxLineBytes : next.maxLineBytes = decoder.maxLineBytes
  maxEventBytes : next.maxEventBytes = decoder.maxEventBytes

variable {next : SseDecoder} {events : List SseEvent}

theorem acceptLine_framing {line : String}
    (h : decoder.acceptLine line = .ok (next, events)) : SameFraming decoder next := by
  unfold acceptLine setField at h
  repeat' split at h
  all_goals cases h
  all_goals exact ⟨rfl, rfl, rfl, rfl, rfl⟩

theorem endLine_framing
    (h : decoder.endLine = .ok (next, events)) : SameFraming { decoder with line := [] } next := by
  unfold endLine at h
  split at h
  · cases h
  · exact acceptLine_framing h

theorem checkedBom_pushByte {byte : UInt8}
    (h : decoder.pushByte byte = .ok (next, events)) : next.checkedBom = decoder.checkedBom := by
  unfold pushByte at h
  split at h
  · cases h
    rfl
  split at h
  · exact (endLine_framing h).checkedBom
  split at h
  · exact (endLine_framing h).checkedBom
  split at h
  · cases h
  · cases h
    rfl

theorem pushOne_of_checkedBom (h : decoder.checkedBom = true)
    (byte : UInt8) : decoder.pushOne byte = decoder.pushByte byte := by
  rw [pushOne, if_pos h]

theorem bomOpen_pushOne {byte : UInt8}
    (hopen : decoder.BomOpen) (h : decoder.pushOne byte = .ok (next, events)) : next.BomOpen := by
  by_cases hchecked : decoder.checkedBom = true
  · rw [pushOne_of_checkedBom hchecked] at h
    exact bomOpen_of_checkedBom ((checkedBom_pushByte h).trans hchecked)
  have hlt : decoder.bomProgress < bom.length := hopen (Bool.eq_false_iff.mpr hchecked)
  rw [pushOne, if_neg hchecked, dif_pos hlt] at h
  split at h
  · cases h
    intro hnext
    have hne : decoder.bomProgress + 1 ≠ bom.length := fun heq => by simp [heq] at hnext
    exact Nat.lt_of_le_of_ne hlt hne
  · exact bomOpen_of_checkedBom (checkedBom_pushByte h)

/-- The result of a chunk, as `push` returns it: an error forgets the events before it. -/
def result (run : List SseEvent × Except StreamDecodeError SseDecoder) :
    Except StreamDecodeError (SseDecoder × List SseEvent) :=
  match run with
  | (_, .error error) => .error error
  | (events, .ok decoder) => .ok (decoder, events)

theorem pushLoop_eq_feed (hchecked : decoder.checkedBom = true)
    (events : List SseEvent) (bytes : List UInt8) :
    decoder.pushLoop events bytes =
      result (events ++ (feed pushOne decoder bytes).1, (feed pushOne decoder bytes).2) := by
  induction bytes generalizing decoder events with
  | nil => simp [pushLoop, result]
  | cons byte bytes ih =>
    have hone := pushOne_of_checkedBom hchecked byte
    cases h : decoder.pushByte byte with
    | error error =>
      rw [pushLoop, h, feed_error (hone.trans h)]
      rfl
    | ok next =>
      have hnext := (checkedBom_pushByte h).trans hchecked
      rw [pushLoop, h, feed_ok (hone.trans h)]
      dsimp only
      rw [ih hnext, List.append_assoc]

section

variable (hchecked : decoder.checkedBom = false) (hopen : decoder.bomProgress < bom.length)
include hchecked hopen

/-- The next byte of the mark. -/
theorem pushOne_mark {byte : UInt8} (hbyte : byte = bom[decoder.bomProgress]) :
    decoder.pushOne byte = .ok ({ decoder with
      bomProgress := decoder.bomProgress + 1
      checkedBom := decoder.bomProgress + 1 == bom.length }, []) := by
  rw [pushOne, if_neg (by simp [hchecked]), dif_pos hopen, if_pos hbyte]

/-- The bytes taken for a mark go in front of the line, where they would have been. -/
theorem pushOne_noMark {byte : UInt8} (hbyte : ¬byte = bom[decoder.bomProgress]) :
    decoder.pushOne byte = pushOne { decoder with
      checkedBom := true
      bomProgress := 0
      line := decoder.line ++ bom.take decoder.bomProgress } byte := by
  rw [pushOne, if_neg (by simp [hchecked]), dif_pos hopen, if_neg hbyte, pushOne_of_checkedBom rfl]

theorem bomLoop_eq_feed (bytes : List UInt8) :
    pushLoop (decoder.bomLoop bytes).1 [] (decoder.bomLoop bytes).2 =
      result (feed pushOne decoder bytes) := by
  induction bytes generalizing decoder with
  | nil =>
    have hne : (decoder.bomProgress == bom.length) = decoder.checkedBom := by
      rw [hchecked]
      exact beq_false_of_ne (by omega)
    simp only [bomLoop, pushLoop, feed_nil, result, hne]
  | cons byte bytes ih =>
    by_cases hbyte : byte = bom[decoder.bomProgress]
    · rw [bomLoop, dif_pos hopen, if_pos hbyte, feed_ok (pushOne_mark hchecked hopen hbyte)]
      by_cases hlast : decoder.bomProgress + 1 = bom.length
      · -- The mark is complete: what is left of the chunk goes through the loop of `push`.
        have hloop : bomLoop { decoder with bomProgress := decoder.bomProgress + 1 } bytes =
            ({ decoder with bomProgress := decoder.bomProgress + 1, checkedBom := true },
              bytes) := by
          cases bytes <;> simp [bomLoop, hlast]
        rw [hloop, pushLoop_eq_feed rfl]
        simp [hlast]
      · have hlt : decoder.bomProgress + 1 < bom.length := by omega
        have hnext : SseDecoder.checkedBom
            { decoder with bomProgress := decoder.bomProgress + 1 } = false := hchecked
        have hno : (decoder.bomProgress + 1 == bom.length) = decoder.checkedBom := by
          rw [hchecked]
          exact beq_false_of_ne hlast
        rw [ih hnext hlt, hno]
        rfl
    · rw [bomLoop, dif_pos hopen, if_neg hbyte, feed_congr (pushOne_noMark hchecked hopen hbyte),
        pushLoop_eq_feed rfl]
      rfl

end

/-- A chunk is its bytes, one after the other. -/
theorem push_eq_feed (hopen : decoder.BomOpen) (chunk : List UInt8) :
    decoder.push chunk = result (feed pushOne decoder chunk) := by
  by_cases hchecked : decoder.checkedBom = true
  · simp only [push, stripByteOrderMark, if_pos hchecked]
    rw [pushLoop_eq_feed hchecked]
    rfl
  have hfalse := Bool.eq_false_iff.mpr hchecked
  simp only [push, stripByteOrderMark, if_neg hchecked]
  exact bomLoop_eq_feed hfalse (hopen hfalse) chunk

/-- What a whole stream comes to, if its bytes come to this. -/
def outcome (run : List SseEvent × Except StreamDecodeError SseDecoder) :
    Except StreamDecodeError (List SseEvent) :=
  run.2.map fun last => run.1 ++ last.finish.2

theorem outcome_append (sent : List SseEvent)
    (run : List SseEvent × Except StreamDecodeError SseDecoder) :
    outcome (sent ++ run.1, run.2) = (outcome run).map (sent ++ ·) := by
  rcases run with ⟨events, error | last⟩
  · rfl
  · simp [outcome, Except.map]

/-- The events of a stream are those of its bytes, in whatever chunks they come. -/
theorem decodeChunks_eq_feed (hopen : decoder.BomOpen) (chunks : List (List UInt8)) :
    decoder.decodeChunks chunks = outcome (feed pushOne decoder chunks.flatten) := by
  induction chunks generalizing decoder with
  | nil => rfl
  | cons chunk chunks ih =>
    rw [decodeChunks, push_eq_feed hopen, List.flatten_cons, feed_append]
    rcases h : feed pushOne decoder chunk with ⟨events, error | next⟩
    · rfl
    have hnext : next.BomOpen := feed_inv (I := BomOpen) bomOpen_pushOne hopen (congrArg Prod.snd h)
    simp only [result, outcome_append]
    rw [ih hnext]
    cases outcome (feed pushOne next chunks.flatten) <;> rfl

end SseDecoder

end GtaClaw.Provider
