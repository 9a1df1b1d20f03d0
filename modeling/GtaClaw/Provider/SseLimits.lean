import GtaClaw.Lib.Except
import GtaClaw.Provider.SseGrammar

/-!
# The limits of the event-stream decoder

The decoder refuses a line that is longer than `max_line_bytes` and an event whose payload
would exceed `max_event_bytes`, and holds no more than that of either. The grammar with
`Fields.size` as the measure of an event says which of the two a stream meets first. The
decoder measures with `Fields.charge`, which differs for one size of one field only: the
first data field of an event, if it fills the event up to the last byte.
-/

namespace GtaClaw.Provider

open Lib List

namespace Fields

variable {fields : Fields}

/-- The payload that the event has behind a line, in bytes. -/
def size (fields : Fields) (line : String) : Nat := (fields.read line).1.payload.utf8ByteSize

end Fields

namespace SseDecoder

variable {decoder next : SseDecoder} {events : List SseEvent}

/-! ## What is held back -/

/-- A decoder that goes through a stream within these limits. -/
structure Bounded (lineLimit eventLimit : Nat) (decoder : SseDecoder) : Prop where
  maxLineBytes : decoder.maxLineBytes = lineLimit
  maxEventBytes : decoder.maxEventBytes = eventLimit
  line : decoder.line.length ≤ lineLimit
  data : decoder.data.utf8ByteSize ≤ eventLimit
  bomOpen : decoder.BomOpen
  start : decoder.checkedBom = false → decoder.line = []

variable {lineLimit eventLimit : Nat} {byte : UInt8}

/-- One byte behind the byte-order mark. -/
theorem Bounded.pushByte (h : decoder.Bounded lineLimit eventLimit)
    (hchecked : decoder.checkedBom = true) (hpush : decoder.pushByte byte = .ok (next, events)) :
    next.Bounded lineLimit eventLimit := by
  have hnext := (checkedBom_pushByte hpush).trans hchecked
  have hopen := bomOpen_of_checkedBom hnext
  have hstart : next.checkedBom = false → next.line = [] := fun h => by
    rw [hnext] at h
    cases h
  obtain ⟨rfl, rfl, hline, hdata, -, -⟩ := h
  unfold SseDecoder.pushByte at hpush
  split at hpush
  · cases hpush
    exact ⟨rfl, rfl, hline, hdata, hopen, hstart⟩
  have hend : ∀ pending, endLine { decoder with pendingCr := pending } = .ok (next, events) →
      next.Bounded decoder.maxLineBytes decoder.maxEventBytes := by
    intro pending hend
    have hframe := endLine_framing hend
    have hnil : next.line.length ≤ decoder.maxLineBytes := by simp [hframe.line]
    have hseparator : "\n".utf8ByteSize = 1 := rfl
    refine ⟨hframe.maxLineBytes, hframe.maxEventBytes, hnil, ?_, hopen, hstart⟩
    unfold endLine acceptLine setField at hend
    repeat' split at hend
    all_goals cases hend
    all_goals try exact hdata
    · exact Nat.zero_le _
    all_goals simp only [String.utf8ByteSize_append] at *
    all_goals omega
  split at hpush
  · exact hend _ hpush
  split at hpush
  · exact hend _ hpush
  split at hpush
  · cases hpush
  · cases hpush
    exact ⟨rfl, rfl, by simp; omega, hdata, hopen, hstart⟩

theorem Bounded.pushOne (hfits : bom.length ≤ lineLimit) (h : decoder.Bounded lineLimit eventLimit)
    (hpush : decoder.pushOne byte = .ok (next, events)) : next.Bounded lineLimit eventLimit := by
  have hopen := bomOpen_pushOne h.bomOpen hpush
  by_cases hchecked : decoder.checkedBom = true
  · rw [pushOne_of_checkedBom hchecked] at hpush
    exact h.pushByte hchecked hpush
  have hfalse := Bool.eq_false_iff.mpr hchecked
  have hseen := h.bomOpen hfalse
  by_cases hbyte : byte = bom[decoder.bomProgress]
  · rw [pushOne_mark hfalse hseen hbyte] at hpush
    cases hpush
    exact { h with bomOpen := hopen, start := fun _ => h.start hfalse }
  · rw [pushOne_noMark hfalse hseen hbyte, pushOne_of_checkedBom rfl] at hpush
    have hreplayed : (decoder.line ++ bom.take decoder.bomProgress).length ≤ lineLimit := by
      rw [h.start hfalse, nil_append, length_take]
      omega
    have hstarted : Bounded lineLimit eventLimit { decoder with
        checkedBom := true, bomProgress := 0,
        line := decoder.line ++ bom.take decoder.bomProgress } :=
      { h with line := hreplayed, bomOpen := bomOpen_of_checkedBom rfl, start := nofun }
    exact hstarted.pushByte rfl hpush

/-- The decoder behind these chunks. -/
def pushAll (decoder : SseDecoder) (chunks : List (List UInt8)) :
    Except StreamDecodeError SseDecoder :=
  chunks.foldlM (fun decoder chunk => (decoder.push chunk).map Prod.fst) decoder

theorem Bounded.pushAll (hfits : bom.length ≤ lineLimit)
    (h : decoder.Bounded lineLimit eventLimit) {chunks : List (List UInt8)}
    (hpush : decoder.pushAll chunks = .ok next) : next.Bounded lineLimit eventLimit := by
  refine foldlM_inv (fun decoder chunk next _ h hpush => ?_) h hpush
  obtain ⟨⟨last, events⟩, hpush, rfl⟩ := map_ok hpush
  rw [push_eq_feed h.bomOpen] at hpush
  rcases hfeed : feed SseDecoder.pushOne decoder chunk with ⟨sent, error | reached⟩
  · rw [hfeed] at hpush
    cases hpush
  · rw [hfeed] at hpush
    cases hpush
    exact feed_inv (I := Bounded lineLimit eventLimit) (fun h => h.pushOne hfits) h
      (congrArg Prod.snd hfeed)

end SseDecoder

end GtaClaw.Provider
