import GtaClaw.Discovery.Message

/-!
# What the decoder reads

Every byte that is read is there, a name ends behind the byte it begins at wherever
its pointers lead, and the declared entries take up the bytes behind the header one
after the other.
-/

namespace GtaClaw.Discovery

open Lib List

variable {bytes : List UInt8} {cursor stop : Nat} {work work' : DecodeWork}

/-! ## Reads -/

theorem readU16_eq (bytes : List UInt8) (cursor : Nat) : readU16 bytes cursor =
    if h : cursor + 2 ≤ bytes.length then
      .ok (ofBeU16 bytes[cursor] bytes[cursor + 1], cursor + 2)
    else .error .truncated := by
  by_cases h : cursor + 2 ≤ bytes.length
  · rw [dif_pos h, readU16, getElem?_eq_getElem (by omega), getElem?_eq_getElem (by omega)]
  · rw [dif_neg h, readU16, getElem?_eq_none (i := cursor + 1) (by omega)]
    split <;> trivial

theorem readU32_eq (bytes : List UInt8) (cursor : Nat) : readU32 bytes cursor =
    if h : cursor + 4 ≤ bytes.length then
      .ok (ofBeU32 bytes[cursor] bytes[cursor + 1] bytes[cursor + 2] bytes[cursor + 3], cursor + 4)
    else .error .truncated := by
  by_cases h : cursor + 4 ≤ bytes.length
  · rw [dif_pos h, readU32, getElem?_eq_getElem (by omega), getElem?_eq_getElem (by omega),
      getElem?_eq_getElem (by omega), getElem?_eq_getElem (by omega)]
  · rw [dif_neg h, readU32, getElem?_eq_none (i := cursor + 3) (by omega)]
    split <;> trivial

theorem stop_of_fits {α : Type} {n : Nat} {read : cursor + n ≤ bytes.length → α} {x : α}
    (h : (if hfits : cursor + n ≤ bytes.length then .ok (read hfits, cursor + n)
      else .error .truncated) = (.ok (x, stop) : Except DnsSdError (α × Nat))) :
    stop = cursor + n ∧ stop ≤ bytes.length := by
  split at h
  · cases h
    exact ⟨rfl, ‹_›⟩
  · cases h

theorem readU16_ok {x : UInt16} (h : readU16 bytes cursor = .ok (x, stop)) :
    stop = cursor + 2 ∧ stop ≤ bytes.length := stop_of_fits (readU16_eq bytes cursor ▸ h)

theorem readU32_ok {x : UInt32} (h : readU32 bytes cursor = .ok (x, stop)) :
    stop = cursor + 4 ∧ stop ≤ bytes.length := stop_of_fits (readU32_eq bytes cursor ▸ h)

/-- What begins at `cursor` ends at `stop`, behind it and within the bytes. -/
def Within (bytes : List UInt8) (cursor stop : Nat) : Prop := cursor < stop ∧ stop ≤ bytes.length

/-! ## Names -/

/-- Where the loop of `decode_name` stands, when the name begins at `start`. -/
def Located (bytes : List UInt8) (start : Nat) (s : NameState) : Prop :=
  if s.followedPointer then Within bytes start s.cursor else start ≤ s.position

theorem decodeName_ok {name : Name} (h : decodeName bytes cursor work = .ok (name, stop, work')) :
    Within bytes cursor stop := by
  obtain ⟨⟨labels, stop', work''⟩, hrun, h⟩ := bind_ok h
  obtain ⟨_, -, h⟩ := bind_ok h
  cases h
  revert hrun
  refine (decodeNameLoop bytes).run_inv (P := Located bytes cursor)
    (Q := fun r => r = .ok (labels, stop, work') → Within bytes cursor stop)
    (fun s s' hs hpass => ?_) (fun s r hs hexit heq => ?_) (Nat.le_refl cursor)
  · unfold Located Within at hs ⊢
    rcases decodeNamePass_ok (Loop.tryPass_inl.mp hpass) with
      ⟨s', ⟨⟩, hfit, hfollowed, hcursor, -⟩ | ⟨s', ⟨⟩, hlt, -, hfollowed, hcursor, -⟩ | ⟨_, -, ⟨⟩⟩
    all_goals
      rw [hfollowed, hcursor]
      cases hf : s.followedPointer with simp only [hf, reduceIte, Bool.false_eq_true] at hs ⊢
      | true => exact hs
      | false => omega
  subst heq
  obtain ⟨_, ⟨⟩, -⟩ | ⟨_, ⟨⟩, -⟩ | ⟨_, hlt, ⟨⟩⟩ := decodeNamePass_ok (Loop.tryPass_ok.mp hexit)
  unfold Located at hs
  unfold Within
  cases hf : s.followedPointer with simp only [hf, reduceIte, Bool.false_eq_true] at hs ⊢
  | true => exact hs
  | false => omega

/-! ## Entries -/

theorem decodeQuestion_ok {question : Question}
    (h : decodeQuestion bytes cursor work = .ok (question, stop, work')) :
    Within bytes cursor stop := by
  obtain ⟨⟨name, c₁, w₁⟩, hname, h⟩ := bind_ok h
  obtain ⟨⟨queryType, c₂⟩, htype, h⟩ := bind_ok h
  obtain ⟨⟨rawClass, c₃⟩, hclass, h⟩ := bind_ok h
  cases h
  have hlt := (decodeName_ok hname).1
  obtain ⟨rfl, -⟩ := readU16_ok htype
  obtain ⟨rfl, hle⟩ := readU16_ok hclass
  exact ⟨by omega, hle⟩

theorem decodeRecord_ok {record : ResourceRecord}
    (h : decodeRecord bytes cursor work = .ok (record, stop, work')) :
    Within bytes cursor stop := by
  obtain ⟨⟨name, c₁, w₁⟩, hname, h⟩ := bind_ok h
  obtain ⟨⟨recordType, c₂⟩, htype, h⟩ := bind_ok h
  obtain ⟨⟨rawClass, c₃⟩, hclass, h⟩ := bind_ok h
  obtain ⟨⟨ttl, c₄⟩, httl, h⟩ := bind_ok h
  obtain ⟨⟨rdataLen, c₅⟩, hlen, h⟩ := bind_ok h
  have hlt := (decodeName_ok hname).1
  obtain ⟨rfl, -⟩ := readU16_ok htype
  obtain ⟨rfl, -⟩ := readU16_ok hclass
  obtain ⟨rfl, -⟩ := readU32_ok httl
  obtain ⟨rfl, -⟩ := readU16_ok hlen
  dsimp only at h
  split at h
  · cases h
  obtain ⟨⟨data, w₂⟩, -, h⟩ := bind_ok h
  cases h
  constructor <;> omega

/-- Spans that follow each other without a gap. -/
def Consecutive : Nat → List (Nat × Nat) → Nat → Prop
  | start, [], stop => start = stop
  | start, span :: rest, stop => span.1 = start ∧ start < span.2 ∧ Consecutive span.2 rest stop

theorem Consecutive.append {mid stop : Nat} {ys : List (Nat × Nat)} :
    ∀ {xs : List (Nat × Nat)} {start : Nat}, Consecutive start xs mid → Consecutive mid ys stop →
      Consecutive start (xs ++ ys) stop
  | [], _, hxs, hys => hxs ▸ hys
  | _ :: _, _, hxs, hys => ⟨hxs.1, hxs.2.1, hxs.2.2.append hys⟩

theorem Consecutive.le : ∀ {spans : List (Nat × Nat)} {start stop : Nat},
    Consecutive start spans stop → ∀ {i : Nat} {span : Nat × Nat}, spans[i]? = some span →
      start ≤ span.1
  | _ :: _, _, _, h, 0, _, hi => by
    cases hi
    exact h.1.ge
  | _ :: _, _, _, h, i + 1, _, hi => (Nat.le_of_lt h.2.1).trans (h.2.2.le hi)

/-- The byte is in this span. -/
def InSpan (spans : List (Nat × Nat)) (p i : Nat) : Prop :=
  ∃ span, spans[i]? = some span ∧ span.1 ≤ p ∧ p < span.2

/-- Every byte is in one of the spans, and in no other. -/
theorem Consecutive.once : ∀ {spans : List (Nat × Nat)} {start stop : Nat},
    Consecutive start spans stop → ∀ p, start ≤ p → p < stop →
      ∃! i, InSpan spans p i
  | [], _, _, h, p, hle, hlt => absurd (h ▸ hlt) (by omega)
  | first :: rest, start, stop, h, p, hle, hlt => by
    by_cases hp : p < first.2
    · refine ⟨0, ⟨first, rfl, h.1 ▸ hle, hp⟩, ?_⟩
      rintro (_ | i) ⟨span, hi, hspan⟩
      · rfl
      · have := h.2.2.le hi
        omega
    · obtain ⟨i, hi, hunique⟩ := h.2.2.once p (by omega) hlt
      refine ⟨i + 1, hi, ?_⟩
      rintro (_ | j) ⟨span, hj, hspan⟩
      · cases hj
        exact absurd hspan.2 hp
      · exact congrArg (· + 1) (hunique j ⟨span, hj, hspan⟩)

/-- These entries were read, one from each span. -/
def ReadFrom {α : Type} (entry : Nat → DecodeWork → Except DnsSdError (α × Nat × DecodeWork)) :
    List α → List (Nat × Nat) → Prop :=
  Forall₂ fun x (span : Nat × Nat) => ∃ work work', entry span.1 work = .ok (x, span.2, work')

theorem decodeMany_ok {α : Type}
    {entry : Nat → DecodeWork → Except DnsSdError (α × Nat × DecodeWork)}
    (hentry : ∀ {cursor work x stop work'}, entry cursor work = .ok (x, stop, work') →
      cursor < stop) :
    ∀ {count cursor : Nat} {work : DecodeWork} {xs : List α},
      decodeMany entry count cursor work = .ok (xs, stop, work') →
      xs.length = count ∧ ∃ spans, ReadFrom entry xs spans ∧ Consecutive cursor spans stop
  | 0, _, _, _, h => by
    cases h
    exact ⟨rfl, [], .nil, rfl⟩
  | count + 1, cursor, work, _, h => by
    obtain ⟨⟨first, mid, w⟩, hfirst, h⟩ := bind_ok h
    obtain ⟨⟨others, stop', w'⟩, hothers, h⟩ := bind_ok h
    cases h
    obtain ⟨hlen, spans, hread, hspans⟩ := decodeMany_ok hentry hothers
    exact ⟨congrArg (· + 1) hlen, (cursor, mid) :: spans, .cons ⟨_, _, hfirst⟩ hread,
      rfl, hentry hfirst, hspans⟩

/-- The entries of a decoded message are those that its header declares, and each was read
from a span of its own: every byte behind the header is in exactly one of them. -/
structure Tiled (bytes : List UInt8) (m : Message) (spans spans' : List (Nat × Nat)) : Prop where
  declared : ∀ q n s e, readU16 bytes 4 = .ok (q, 6) → readU16 bytes 6 = .ok (n, 8) →
    readU16 bytes 8 = .ok (s, 10) → readU16 bytes 10 = .ok (e, 12) →
    m.questions.length = q.toNat ∧ m.records.length = n.toNat + s.toNat + e.toNat
  questions : ReadFrom (decodeQuestion bytes) m.questions spans
  records : ReadFrom (decodeRecord bytes) m.records spans'
  once : ∀ p, 12 ≤ p → p < bytes.length → ∃! i, InSpan (spans ++ spans') p i

theorem Message.decode_tiled {m : Message} (h : Message.decode bytes = .ok m) :
    ∃ spans spans', Tiled bytes m spans spans' := by
  obtain ⟨_, -, h⟩ := bind_ok h
  split at h
  · cases h
  obtain ⟨⟨id, _⟩, -, h⟩ := bind_ok h
  obtain ⟨⟨flags, _⟩, -, h⟩ := bind_ok h
  obtain ⟨⟨q, _⟩, hq, h⟩ := bind_ok h
  obtain ⟨⟨n, _⟩, hn, h⟩ := bind_ok h
  obtain ⟨⟨s, _⟩, hs, h⟩ := bind_ok h
  obtain ⟨⟨e, _⟩, he, h⟩ := bind_ok h
  obtain ⟨_, -, h⟩ := bind_ok h
  obtain ⟨⟨questions, c₁, w₁⟩, hquestions, h⟩ := bind_ok h
  obtain ⟨⟨answers, c₂, w₂⟩, hanswers, h⟩ := bind_ok h
  obtain ⟨⟨authorities, c₃, w₃⟩, hauthorities, h⟩ := bind_ok h
  obtain ⟨⟨additionals, c₄, w₄⟩, hadditionals, h⟩ := bind_ok h
  dsimp only at h
  split at h
  · cases h
  rename_i hend
  cases h
  obtain ⟨hl₁, s₁, hr₁, hc₁⟩ := decodeMany_ok (fun h => (decodeQuestion_ok h).1) hquestions
  obtain ⟨hl₂, s₂, hr₂, hc₂⟩ := decodeMany_ok (fun h => (decodeRecord_ok h).1) hanswers
  obtain ⟨hl₃, s₃, hr₃, hc₃⟩ := decodeMany_ok (fun h => (decodeRecord_ok h).1) hauthorities
  obtain ⟨hl₄, s₄, hr₄, hc₄⟩ := decodeMany_ok (fun h => (decodeRecord_ok h).1) hadditionals
  have hall := hc₁.append ((hc₂.append hc₃).append hc₄)
  rw [not_not.mp hend] at hall
  refine ⟨s₁, s₂ ++ s₃ ++ s₄, ?_, hr₁, rel_append (rel_append hr₂ hr₃) hr₄, hall.once⟩
  intro q' n' s' e' hq' hn' hs' he'
  cases hq.symm.trans hq'
  cases hn.symm.trans hn'
  cases hs.symm.trans hs'
  cases he.symm.trans he'
  simp only [Message.records, length_append]
  omega

/-- **Decoding any bytes**: the loop of a name ends, and what is read and cut out lies within the
bytes; a name or an entry ends behind its start and within the bytes; and the entries of a
message that decodes account for all the bytes behind its header. -/
theorem decode_in_bounds (bytes : List UInt8) :
    (∀ s : NameState, ∃ n, n ≤ s.budget + maxCompressionPointerHops + 1 ∧
      (decodeNameLoop bytes).Passes n s ((decodeNameLoop bytes).run s)) ∧
    (∀ (bytes : List UInt8) (cursor : Nat),
      (readU16 bytes cursor = if h : cursor + 2 ≤ bytes.length then
        .ok (ofBeU16 bytes[cursor] bytes[cursor + 1], cursor + 2) else .error .truncated) ∧
      readU32 bytes cursor = if h : cursor + 4 ≤ bytes.length then
        .ok (ofBeU32 bytes[cursor] bytes[cursor + 1] bytes[cursor + 2] bytes[cursor + 3], cursor + 4)
        else .error .truncated) ∧
    (∀ rdata : List UInt8, ¬rdata.length < 7 → ∀ p ≤ 4, ∃ x, readU16 rdata p = .ok (x, p + 2)) ∧
    (∀ rdata s s', txtPass rdata s = .ok (.inl s') → Within rdata s.index s'.index ∧
      s'.strings = s.strings ++ [slice rdata (s.index + 1) s'.index]) ∧
    (∀ s s', decodeNamePass bytes s = .ok (.inl s') → s'.labels = s.labels ∨
      ∃ stop, Within bytes s.position stop ∧
        s'.labels = s.labels ++ [slice bytes (s.position + 1) stop]) ∧
    (∀ cursor work name stop work', decodeName bytes cursor work = .ok (name, stop, work') →
      Within bytes cursor stop) ∧ (∀ cursor work question stop work',
      decodeQuestion bytes cursor work = .ok (question, stop, work') → Within bytes cursor stop) ∧
    (∀ cursor work record stop work',
      decodeRecord bytes cursor work = .ok (record, stop, work') → Within bytes cursor stop) ∧
    (∀ name : Name, (∀ label ∈ name.labels, label ≠ [] ∧ label.length ≤ 63) ∧
      encodedLen name.labels ≤ 255) ∧
    ∀ m, Message.decode bytes = .ok m → ∃ spans spans', Tiled bytes m spans spans' := by
  refine ⟨fun s => ?_, fun bytes cursor => ⟨readU16_eq .., readU32_eq ..⟩, fun rdata h p hp => ?_,
    fun rdata s s' h => ?_, fun s s' h => ?_, fun _ _ _ _ _ => decodeName_ok,
    fun _ _ _ _ _ => decodeQuestion_ok, fun _ _ _ _ _ => decodeRecord_ok,
    fun name => ⟨name.labels_valid, name.encodedLen_le⟩, fun _ => Message.decode_tiled⟩
  · obtain ⟨n, hn, hpasses⟩ := (decodeNameLoop bytes).exists_passes s
    refine ⟨n, hn.trans ?_, hpasses⟩
    exact Nat.succ_le_succ (Nat.add_le_add_left (Nat.sub_le ..) _)
  · rw [readU16_eq, dif_pos (by omega)]
    exact ⟨_, rfl⟩
  · obtain ⟨hlt, hle, _, rfl, -, hstrings⟩ := txtPass_inl h
    exact ⟨⟨hlt, hle⟩, hstrings⟩
  · rcases decodeNamePass_ok h with ⟨s', ⟨⟩, -, -, -, -, -, -, hlabels⟩ |
      ⟨s', ⟨⟩, hlt, hle, -, -, -, -, hlabels⟩ | ⟨_, -, ⟨⟩⟩
    · exact .inl hlabels
    · exact .inr ⟨_, ⟨hlt, hle⟩, hlabels⟩

end GtaClaw.Discovery
