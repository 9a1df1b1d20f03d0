import GtaClaw.Lib.Bytes
import GtaClaw.Lib.Lines
import GtaClaw.Lib.Loop

/-!
# Newline-delimited frames

`JsonLineDecoder` takes bytes in chunks and gives back the JSON values of the
lines they complete. It keeps the unfinished line in a buffer, together with how
much of the buffer is known to hold no terminator. Three checks bound a frame: a
chunk that cannot fit is refused before it is copied in, a complete frame is
measured without its terminator, and what is left in the buffer is measured as
it stands.

The JSON parser is a parameter, a fixed function from text to a value or an
error. Capacity is not modelled: reclaiming it never changes the contents.
-/

namespace GtaClaw.Mcp

open Lib

def lf : UInt8 := 10

def cr : UInt8 := 13

/-- `std::str::from_utf8`. -/
def fromUtf8 (bytes : List UInt8) : Option String := String.fromUTF8? ⟨bytes.toArray⟩

/-- The errors `push` can return. -/
inductive McpError (JsonError : Type) where
  | protocol (message : String)
  | json (error : JsonError)
  deriving DecidableEq, Repr

def frameTooLong : String := "stdio frame exceeds byte limit"

def frameNotUtf8 : String := "stdio frame is not UTF-8"

variable {Value JsonError : Type} (fromStr : String → Except JsonError Value)

/-- Incremental decoder for newline-delimited JSON-RPC messages. -/
structure JsonLineDecoder where
  buffered : List UInt8
  /-- Length of the `buffered` part already searched for a frame terminator. -/
  scanned : Nat
  maxFrameBytes : Nat
  deriving DecidableEq, Repr

variable (maxFrameBytes : Nat)

def JsonLineDecoder.new : JsonLineDecoder := ⟨[], 0, maxFrameBytes⟩

def decodeFrame (frame : List UInt8) : Except (McpError JsonError) Value :=
  if frame.length > maxFrameBytes then .error (.protocol frameTooLong)
  else
    match fromUtf8 frame with
    | none => .error (.protocol frameNotUtf8)
    | some text =>
      match fromStr text with
      | .ok value => .ok value
      | .error error => .error (.json error)

/-- Where the frame loop of `push` stands. -/
structure Framing (Value : Type) where
  decoded : List Value
  consumed : Nat
  scan : Nat

/-- How the frame loop of `push` ends. -/
structure Framed (Value JsonError : Type) where
  decoded : List Value
  consumed : Nat
  outcome : Except (McpError JsonError) Unit

/-- The end of a frame: the terminator may be preceded by a carriage return. -/
def frameEnd (buffered : List UInt8) (consumed newline : Nat) : Nat :=
  if newline > consumed ∧ buffered[newline - 1]? = some cr then newline - 1 else newline

/-- One terminator of the frame loop. -/
def framePass (buffered : List UInt8) (s : Framing Value) :
    Framing Value ⊕ Framed Value JsonError :=
  match (buffered.drop s.scan).findIdx? (· == lf) with
  | none => .inr ⟨s.decoded, s.consumed, .ok ()⟩
  | some offset =>
    let newline := s.scan + offset
    let frame := slice buffered s.consumed (frameEnd buffered s.consumed newline)
    if frame.isEmpty then .inl { s with consumed := newline + 1, scan := newline + 1 }
    else
      match decodeFrame fromStr maxFrameBytes frame with
      | .ok value => .inl ⟨s.decoded ++ [value], newline + 1, newline + 1⟩
      | .error error => .inr ⟨s.decoded, newline + 1, .error error⟩

theorem framePass_scan {maxFrameBytes : Nat} {buffered : List UInt8} {s s' : Framing Value}
    (h : framePass fromStr maxFrameBytes buffered s = .inl s') :
    s.scan < s'.scan ∧ s'.scan ≤ buffered.length := by
  unfold framePass at h
  split at h
  · cases h
  rename_i offset ho
  obtain ⟨hlt, _⟩ := List.findIdx?_eq_some_iff_getElem.mp ho
  rw [List.length_drop] at hlt
  dsimp only at h
  split at h
  · cases h
    dsimp only
    omega
  split at h
  · cases h
    dsimp only
    omega
  · cases h

def frameLoop (buffered : List UInt8) : Loop (Framing Value) (Framed Value JsonError) where
  body := framePass fromStr maxFrameBytes buffered
  measure s := buffered.length - s.scan
  decreases := by
    intro s s' h
    have := framePass_scan fromStr h
    omega

namespace JsonLineDecoder

/-- A chunk without a terminator that already busts the limit is refused before it is copied in. -/
def refuses (d : JsonLineDecoder) (bytes : List UInt8) : Bool :=
  decide (d.scanned = d.buffered.length) && decide (d.buffered.length + bytes.length > d.maxFrameBytes)
    && !bytes.contains lf

/-- Appends one byte chunk and returns every complete JSON value it contains. -/
def push (d : JsonLineDecoder) (bytes : List UInt8) :
    Except (McpError JsonError) (List Value) × JsonLineDecoder :=
  if d.refuses bytes then (.error (.protocol frameTooLong), d)
  else
    let buffered := d.buffered ++ bytes
    let framed := (frameLoop fromStr d.maxFrameBytes buffered).run ⟨[], 0, d.scanned⟩
    let rest := buffered.drop framed.consumed
    match framed.outcome with
    | .error error =>
      -- the tail past the failing frame was never searched
      (.error error, { d with buffered := rest, scanned := 0 })
    | .ok () =>
      let d := { d with buffered := rest, scanned := rest.length }
      if rest.length > d.maxFrameBytes then (.error (.protocol frameTooLong), d)
      else (.ok framed.decoded, d)

/-- Pushes the chunks in order; what each push returned, and the decoder behind the last. -/
def pushAll (d : JsonLineDecoder) :
    List (List UInt8) → List (Except (McpError JsonError) (List Value)) × JsonLineDecoder
  | [] => ([], d)
  | bytes :: chunks =>
    let (result, d) := d.push fromStr bytes
    let (results, d) := d.pushAll chunks
    (result :: results, d)

end JsonLineDecoder

/-- The values a sequence of results handed to its caller. -/
def returned (results : List (Except (McpError JsonError) (List Value))) : List Value :=
  results.flatMap (fun result => result.toOption.getD [])

end GtaClaw.Mcp
