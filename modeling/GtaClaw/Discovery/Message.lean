import GtaClaw.Lib.Except
import GtaClaw.Discovery.Txt

/-!
# DNS messages on the wire

The message codec with RFC 1035 name compression. The encoder remembers every
name suffix it writes under a flattened key and points back at it when the key
comes up again; the decoder follows such pointers only strictly backwards, and
under three budgets: pointer hops, expanded name bytes, and work per message.

Positions are `Nat`: the size check at the top of `decode` keeps all of them far
below the machine word, so the checked additions of the source cannot overflow.
-/

namespace GtaClaw.Discovery

open Lib

def typeA : UInt16 := 1
def typePtr : UInt16 := 12
def typeTxt : UInt16 := 16
def typeAaaa : UInt16 := 28
def typeSrv : UInt16 := 33

def maxPointerOffset : Nat := 0x3fff
def maxCompressionPointerHops : Nat := 128
def decodeWorkPerMessageByte : Nat := 16
def decodeWorkPerLabel : Nat := 8
def minQuestionWireBytes : Nat := 5
def minRecordWireBytes : Nat := 11

def maxMessageBytes : Nat := 65535

/-- An address of a fixed number of bytes. -/
structure Octets (n : Nat) where
  bytes : List UInt8
  length_eq : bytes.length = n
  deriving DecidableEq

/-- The record payloads this codec understands. -/
inductive RecordData where
  | a (address : Octets 4)
  | aaaa (address : Octets 16)
  | ptr (target : Name)
  | srv (priority weight port : UInt16) (target : Name)
  | txt (record : TxtRecord)
  | other (recordType : UInt16) (rdata : List UInt8)

/-- The numeric record type of a payload. -/
def RecordData.recordType : RecordData → UInt16
  | .a _ => typeA
  | .aaaa _ => typeAaaa
  | .ptr _ => typePtr
  | .srv .. => typeSrv
  | .txt _ => typeTxt
  | .other recordType _ => recordType

/-- Derived equality, with `Name` compared by its own equality. -/
def RecordData.eq : RecordData → RecordData → Bool
  | .a x, .a y => x == y
  | .aaaa x, .aaaa y => x == y
  | .ptr x, .ptr y => x == y
  | .srv p w q t, .srv p' w' q' t' => p == p' && w == w' && q == q' && t == t'
  | .txt x, .txt y => x == y
  | .other t r, .other t' r' => t == t' && r == r'
  | _, _ => false

instance : BEq RecordData := ⟨RecordData.eq⟩

structure ResourceRecord where
  name : Name
  /-- Record class, cache-flush bit excluded. -/
  cls : UInt16
  /-- Whether the mDNS cache-flush bit is set. -/
  cacheFlush : Bool
  ttl : UInt32
  data : RecordData

def ResourceRecord.eq (r r' : ResourceRecord) : Bool :=
  r.name == r'.name && r.cls == r'.cls && r.cacheFlush == r'.cacheFlush && r.ttl == r'.ttl
    && r.data == r'.data

instance : BEq ResourceRecord := ⟨ResourceRecord.eq⟩

structure Question where
  name : Name
  queryType : UInt16
  /-- Queried class, unicast-response bit excluded. -/
  queryClass : UInt16
  /-- Whether the mDNS unicast-response bit is set. -/
  unicastResponse : Bool

def Question.eq (q q' : Question) : Bool :=
  q.name == q'.name && q.queryType == q'.queryType && q.queryClass == q'.queryClass
    && q.unicastResponse == q'.unicastResponse

instance : BEq Question := ⟨Question.eq⟩

structure Message where
  id : UInt16
  /-- Header flags, excluding the counts. -/
  flags : UInt16
  questions : List Question
  answers : List ResourceRecord
  authorities : List ResourceRecord
  additionals : List ResourceRecord

def Message.eq (m m' : Message) : Bool :=
  m.id == m'.id && m.flags == m'.flags && m.questions == m'.questions && m.answers == m'.answers
    && m.authorities == m'.authorities && m.additionals == m'.additionals

instance : BEq Message := ⟨Message.eq⟩

/-- Every record in answer, authority and additional order. -/
def Message.records (m : Message) : List ResourceRecord :=
  m.answers ++ m.authorities ++ m.additionals

/-! ## Encoding -/

/-- Where each suffix key was first written. A later entry shadows an earlier one. -/
abbrev Offsets := List (List UInt8 × UInt16)

def sectionCount (value : Nat) : Except DnsSdError UInt16 :=
  match u16TryFrom value with
  | some count => .ok count
  | none => .error (.sectionTooLarge value)

def ensureMessageSize (length : Nat) : Except DnsSdError Unit :=
  if length > maxMessageBytes then .error (.messageTooLarge length maxMessageBytes) else .ok ()

/-- The compression key of a suffix: its labels lower-cased, each closed by a dot. -/
def suffixKey : List Label → List UInt8
  | [] => []
  | label :: rest => label.map toAsciiLowercase ++ [46] ++ suffixKey rest

/-- Writes a name behind `out`, pointing at the first suffix whose key is known. -/
def encodeName (out : List UInt8) : List Label → Offsets → List UInt8 × Offsets
  | [], offsets => (out ++ [0], offsets)
  | label :: rest, offsets =>
    let suffix := suffixKey (label :: rest)
    match offsets.lookup suffix with
    | some offset => (out ++ beU16 (offset ||| 0xc000), offsets)
    | none =>
      -- only an offset that fits in 14 bits can ever be pointed at
      let offsets :=
        if out.length ≤ maxPointerOffset then
          (suffix, (u16TryFrom out.length).getD 0xffff) :: offsets
        else offsets
      let length := (u8TryFrom label.length).getD 255
      encodeName (out ++ [length] ++ label) rest offsets

/-- The payload behind `out`. An SRV target neither consults nor records offsets. -/
def encodeRdata (out : List UInt8) (data : RecordData) (offsets : Offsets) : List UInt8 × Offsets :=
  match data with
  | .a address => (out ++ address.bytes, offsets)
  | .aaaa address => (out ++ address.bytes, offsets)
  | .ptr target => encodeName out target.labels offsets
  | .srv priority weight port target =>
    ((encodeName (out ++ beU16 priority ++ beU16 weight ++ beU16 port) target.labels []).1,
      offsets)
  | .txt txt => (out ++ txt.encode, offsets)
  | .other _ rdata => (out ++ rdata, offsets)

/-- `out[at..at + 2].copy_from_slice(..)`. -/
def patchU16 (out : List UInt8) (pos : Nat) (value : UInt16) : List UInt8 :=
  out.take pos ++ beU16 value ++ out.drop (pos + 2)

def encodeRecord (out : List UInt8) (record : ResourceRecord) (offsets : Offsets) :
    Except DnsSdError (List UInt8 × Offsets) :=
  let (out, offsets) := encodeName out record.name.labels offsets
  let out := out ++ beU16 record.data.recordType
  let out := out ++ beU16 (withFlag record.cls record.cacheFlush)
  let out := out ++ beU32 record.ttl
  let lengthPosition := out.length
  let out := out ++ [0, 0]
  let (out, offsets) := encodeRdata out record.data offsets
  let rdataLen := out.length - lengthPosition - 2
  match u16TryFrom rdataLen with
  | none => .error (.sectionTooLarge rdataLen)
  | some value => .ok (patchU16 out lengthPosition value, offsets)

def encodeQuestion (out : List UInt8) (question : Question) (offsets : Offsets) :
    Except DnsSdError (List UInt8 × Offsets) :=
  let (out, offsets) := encodeName out question.name.labels offsets
  let out := out ++ beU16 question.queryType
  let out := out ++ beU16 (withFlag question.queryClass question.unicastResponse)
  .ok (out, offsets)

/-- One section loop of `Message::encode`: an entry, then the size check. -/
def encodeEach {α : Type}
    (encode : List UInt8 → α → Offsets → Except DnsSdError (List UInt8 × Offsets))
    (out : List UInt8) : List α → Offsets → Except DnsSdError (List UInt8 × Offsets)
  | [], offsets => .ok (out, offsets)
  | entry :: rest, offsets => do
    let (out, offsets) ← encode out entry offsets
    ensureMessageSize out.length
    encodeEach encode out rest offsets

/-- Encodes the message, compressing every name suffix seen before. -/
def Message.encode (m : Message) : Except DnsSdError (List UInt8) := do
  let questions ← sectionCount m.questions.length
  let answers ← sectionCount m.answers.length
  let authorities ← sectionCount m.authorities.length
  let additionals ← sectionCount m.additionals.length
  let out := beU16 m.id ++ beU16 m.flags ++ beU16 questions ++ beU16 answers
    ++ beU16 authorities ++ beU16 additionals
  let (out, offsets) ← encodeEach encodeQuestion out m.questions []
  let (out, _) ← encodeEach encodeRecord out m.records offsets
  return out

/-! ## Decoding -/

/-- The name-expansion work one message may still cost. -/
structure DecodeWork where
  limit : Nat
  remaining : Nat
  deriving DecidableEq

def DecodeWork.new (messageBytes : Nat) : DecodeWork :=
  ⟨messageBytes * decodeWorkPerMessageByte, messageBytes * decodeWorkPerMessageByte⟩

def DecodeWork.consume (work : DecodeWork) (units : Nat) : Except DnsSdError DecodeWork :=
  if units ≤ work.remaining then .ok { work with remaining := work.remaining - units }
  else .error (.decodeWorkLimit work.limit)

/-- Where the loop of `decode_name` stands. -/
structure NameState where
  labels : List Label
  position : Nat
  /-- Whether a pointer was followed; the cursor stays behind the first one. -/
  followedPointer : Bool
  /-- Where the enclosing message goes on. -/
  cursor : Nat
  budget : Nat
  pointerHops : Nat
  work : DecodeWork

variable (bytes : List UInt8)

theorem okOr_lt {e : DnsSdError} {i : Nat} {byte : UInt8} {bytes : List UInt8}
    (h : okOr e bytes[i]? = .ok byte) : i < bytes.length := by
  by_contra hle
  rw [List.getElem?_eq_none (by omega)] at h
  cases h

/-- One pass of `decode_name`: a pointer, the root byte, or a label. -/
def decodeNamePass (s : NameState) :
    Except DnsSdError (NameState ⊕ (List Label × Nat × DecodeWork)) := do
  let lengthByte ← okOr .truncated bytes[s.position]?
  let work ← s.work.consume 1
  if lengthByte &&& 0xc0 = 0xc0 then
    let second ← okOr .truncated bytes[s.position + 1]?
    let work ← work.consume 1
    let pointerHops := s.pointerHops + 1
    if pointerHops > maxCompressionPointerHops then
      .error (.compressionPointerLimit maxCompressionPointerHops)
    else
      let target := (ofBeU16 (lengthByte &&& ~~~0xc0) second).toNat
      -- a pointer must move strictly backwards
      if target ≥ s.position then .error .badPointer
      else
        .ok (.inl { s with
          position := target
          followedPointer := true
          cursor := if s.followedPointer then s.cursor else s.position + 2
          pointerHops := pointerHops
          work := work })
  else if lengthByte &&& 0xc0 ≠ 0 then .error .badPointer
  else
    let length := lengthByte.toNat
    if length = 0 then
      .ok (.inr (s.labels, if s.followedPointer then s.cursor else s.position + 1, work))
    else
      let work ← work.consume (length + decodeWorkPerLabel)
      if length + 1 > s.budget then .error (.nameTooLong (maxNameBytes + 1))
      else
        let start := s.position + 1
        let stop := start + length
        if stop > bytes.length then .error .truncated
        else
          .ok (.inl { s with
            labels := s.labels ++ [slice bytes start stop]
            position := stop
            budget := s.budget - (length + 1)
            work := work })

/-- What a pass has read: a pointer, a label, or the root byte. -/
theorem decodeNamePass_ok {bytes : List UInt8} {s : NameState}
    {r : NameState ⊕ (List Label × Nat × DecodeWork)} (h : decodeNamePass bytes s = .ok r) :
    (∃ s', r = .inl s' ∧ s.position + 2 ≤ bytes.length ∧ s'.followedPointer = true ∧
      s'.cursor = (if s.followedPointer then s.cursor else s.position + 2) ∧
      s'.budget = s.budget ∧ s'.pointerHops = s.pointerHops + 1 ∧
      s'.pointerHops ≤ maxCompressionPointerHops ∧ s'.labels = s.labels) ∨
    (∃ s', r = .inl s' ∧ s.position < s'.position ∧ s'.position ≤ bytes.length ∧
      s'.followedPointer = s.followedPointer ∧ s'.cursor = s.cursor ∧ s'.budget < s.budget ∧
      s'.pointerHops = s.pointerHops ∧
      s'.labels = s.labels ++ [slice bytes (s.position + 1) s'.position]) ∨
    (∃ work, s.position < bytes.length ∧
      r = .inr (s.labels, if s.followedPointer then s.cursor else s.position + 1, work)) := by
  obtain ⟨lengthByte, hbyte, h⟩ := bind_ok h
  obtain ⟨work, -, h⟩ := bind_ok h
  split at h
  · -- a pointer: the hop is counted before it is followed
    obtain ⟨second, hsecond, h⟩ := bind_ok h
    obtain ⟨work, -, h⟩ := bind_ok h
    dsimp only at h
    split at h
    · cases h
    rename_i hhops
    split at h
    · cases h
    cases h
    exact .inl ⟨_, rfl, okOr_lt hsecond, rfl, rfl, rfl, rfl, not_lt.mp hhops, rfl⟩
  · split at h
    · cases h
    extract_lets length at h
    split at h
    · cases h
      exact .inr (.inr ⟨work, okOr_lt hbyte, rfl⟩)
    obtain ⟨work, -, h⟩ := bind_ok h
    split at h
    · cases h
    split at h
    · cases h
    cases h
    refine .inr (.inl ⟨_, rfl, ?_, ?_, rfl, rfl, ?_, rfl, rfl⟩)
    · dsimp only
      omega
    · dsimp only
      omega
    · dsimp only
      omega

/-- Each further pass spends name budget or a pointer hop. -/
theorem decodeNamePass_decreases (bytes : List UInt8) (s s' : NameState)
    (h : decodeNamePass bytes s = .ok (.inl s')) :
    s'.budget + (maxCompressionPointerHops - s'.pointerHops)
      < s.budget + (maxCompressionPointerHops - s.pointerHops) := by
  rcases decodeNamePass_ok h with ⟨s', ⟨⟩, -, -, -, hbudget, hhops, hmax, -⟩ |
    ⟨s', ⟨⟩, -, -, -, -, hbudget, hhops, -⟩ | ⟨_, -, ⟨⟩⟩
  · omega
  · omega

def decodeNameLoop : Loop NameState (Except DnsSdError (List Label × Nat × DecodeWork)) :=
  Loop.fallible (decodeNamePass bytes)
    (fun s => s.budget + (maxCompressionPointerHops - s.pointerHops))
    (decodeNamePass_decreases bytes)

variable (cursor : Nat)

/-- Reads a name at `cursor`, and reports where the message goes on. -/
def decodeName (work : DecodeWork) : Except DnsSdError (Name × Nat × DecodeWork) := do
  let (labels, cursor, work) ← (decodeNameLoop bytes).run
    { labels := [], position := cursor, followedPointer := false, cursor := cursor,
      budget := maxNameBytes, pointerHops := 0, work := work }
  let name ← Name.fromLabels labels
  return (name, cursor, work)

def readU16 : Except DnsSdError (UInt16 × Nat) :=
  match bytes[cursor]?, bytes[cursor + 1]? with
  | some b₀, some b₁ => .ok (ofBeU16 b₀ b₁, cursor + 2)
  | _, _ => .error .truncated

def readU32 : Except DnsSdError (UInt32 × Nat) :=
  match bytes[cursor]?, bytes[cursor + 1]?, bytes[cursor + 2]?, bytes[cursor + 3]? with
  | some b₀, some b₁, some b₂, some b₃ => .ok (ofBeU32 b₀ b₁ b₂ b₃, cursor + 4)
  | _, _, _, _ => .error .truncated

/-- Exactly `n` bytes as an address, else malformed rdata of the given type. -/
def octetsFrom (n : Nat) (recordType : UInt16) (rdata : List UInt8) :
    Except DnsSdError (Octets n) :=
  if h : rdata.length = n then .ok ⟨rdata, h⟩ else .error (.badRdata recordType)

/-- A name that has to fill the rdata up to `stop`. -/
def decodeTarget (message : List UInt8) (recordType : UInt16) (inner stop : Nat)
    (work : DecodeWork) : Except DnsSdError (Name × DecodeWork) := do
  let (target, inner, work) ← decodeName message inner work
  if inner ≠ stop then .error (.badRdata recordType) else .ok (target, work)

def decodeRdata (message : List UInt8) (recordType : UInt16) (rdata : List UInt8)
    (rdataStart : Nat) (work : DecodeWork) : Except DnsSdError (RecordData × DecodeWork) :=
  if recordType = typeA then do
    let address ← octetsFrom 4 typeA rdata
    return (.a address, work)
  else if recordType = typeAaaa then do
    let address ← octetsFrom 16 typeAaaa rdata
    return (.aaaa address, work)
  else if recordType = typePtr then do
    let (target, work) ← decodeTarget message typePtr rdataStart (rdataStart + rdata.length) work
    return (.ptr target, work)
  else if recordType = typeSrv then
    if rdata.length < 7 then .error (.badRdata typeSrv)
    else do
      let (priority, _) ← readU16 rdata 0
      let (weight, _) ← readU16 rdata 2
      let (port, _) ← readU16 rdata 4
      let (target, work) ←
        decodeTarget message typeSrv (rdataStart + 6) (rdataStart + rdata.length) work
      return (.srv priority weight port target, work)
  else if recordType = typeTxt then do
    let txt ← TxtRecord.decode rdata
    return (.txt txt, work)
  else .ok (.other recordType rdata, work)

def decodeRecord (work : DecodeWork) : Except DnsSdError (ResourceRecord × Nat × DecodeWork) := do
  let (name, cursor, work) ← decodeName bytes cursor work
  let (recordType, cursor) ← readU16 bytes cursor
  let (rawClass, cursor) ← readU16 bytes cursor
  let (ttl, cursor) ← readU32 bytes cursor
  let (rdataLen, cursor) ← readU16 bytes cursor
  let rdataEnd := cursor + rdataLen.toNat
  if rdataEnd > bytes.length then .error .truncated
  else
    let (data, work) ←
      decodeRdata bytes recordType (slice bytes cursor rdataEnd) cursor work
    return ({ name := name, cls := rawClass &&& ~~~0x8000, cacheFlush := rawClass &&& 0x8000 != 0,
              ttl := ttl, data := data }, rdataEnd, work)

def decodeQuestion (work : DecodeWork) : Except DnsSdError (Question × Nat × DecodeWork) := do
  let (name, cursor, work) ← decodeName bytes cursor work
  let (queryType, cursor) ← readU16 bytes cursor
  let (rawClass, cursor) ← readU16 bytes cursor
  return ({ name := name, queryType := queryType, queryClass := rawClass &&& ~~~0x8000,
            unicastResponse := rawClass &&& 0x8000 != 0 }, cursor, work)

/-- `for _ in 0..count`, one entry at a time. -/
def decodeMany {α : Type} (entry : Nat → DecodeWork → Except DnsSdError (α × Nat × DecodeWork)) :
    Nat → Nat → DecodeWork → Except DnsSdError (List α × Nat × DecodeWork)
  | 0, cursor, work => .ok ([], cursor, work)
  | count + 1, cursor, work => do
    let (first, cursor, work) ← entry cursor work
    let (others, cursor, work) ← decodeMany entry count cursor work
    return (first :: others, cursor, work)

def decodeRecords (cursor count : Nat) (work : DecodeWork) :
    Except DnsSdError (List ResourceRecord × Nat × DecodeWork) :=
  decodeMany (decodeRecord bytes) count cursor work

/-- Header section counts have to fit in the bytes behind the header. -/
def validateDeclaredCounts (questions answers authorities additionals available : Nat) :
    Except DnsSdError Unit :=
  let records := answers + authorities + additionals
  let minimum := questions * minQuestionWireBytes + records * minRecordWireBytes
  if minimum > available then .error (.impossibleSectionCounts questions records available)
  else .ok ()

def Message.decode : Except DnsSdError Message := do
  ensureMessageSize bytes.length
  if bytes.length < 12 then .error .truncated
  else
    let (id, _) ← readU16 bytes 0
    let (flags, _) ← readU16 bytes 2
    let (questionCount, _) ← readU16 bytes 4
    let (answerCount, _) ← readU16 bytes 6
    let (authorityCount, _) ← readU16 bytes 8
    let (additionalCount, _) ← readU16 bytes 10
    validateDeclaredCounts questionCount.toNat answerCount.toNat authorityCount.toNat
      additionalCount.toNat (bytes.length - 12)
    let (questions, cursor, work) ←
      decodeMany (decodeQuestion bytes) questionCount.toNat 12 (DecodeWork.new bytes.length)
    let (answers, cursor, work) ← decodeRecords bytes cursor answerCount.toNat work
    let (authorities, cursor, work) ← decodeRecords bytes cursor authorityCount.toNat work
    let (additionals, cursor, _) ← decodeRecords bytes cursor additionalCount.toNat work
    if cursor ≠ bytes.length then .error .trailingBytes
    else
      return { id := id, flags := flags, questions := questions, answers := answers,
               authorities := authorities, additionals := additionals }

end GtaClaw.Discovery
