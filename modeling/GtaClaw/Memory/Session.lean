import GtaClaw.Channel.Text
import GtaClaw.Lib.Run

/-!
# Sessions

A session holds the messages of a conversation, the summaries that stand for
older ones, and the ordinal that the next message gets. Messages come in through
`append`, and through `deserialize`, which takes a stored document apart and
applies the bounds again that the other operations keep.

A document is modelled by its fields. A string in it is the token it was written
as where the document is read from memory, and the string itself where it comes
from a value that is already decoded. How a string is escaped is a matter of the
JSON library, of which only what `JsonStrings` says is used.
-/

namespace GtaClaw.Memory

open Lib
open Channel (Text utf8Len)

def maxSessionIdBytes : Nat := 128

def maxMessageBytes : Nat := 1024 * 1024

def maxMessages : Nat := 100000

def maxSummaries : Nat := 10000

def u64Max : UInt64 := 0xffffffffffffffff

/-- A rejected session or message operation. -/
inductive SessionError where
  | emptySessionId
  | sessionIdTooLong
  | invalidSessionId
  | emptyMessage
  | messageTooLong
  | tooManyMessages
  | tooManySummaries
  | invalidSummaryRange
  | sessionExhausted
  deriving DecidableEq, Repr

/-! ## Messages and summaries -/

def acceptableInId (c : Char) : Bool := c.isAlphanum || c == '-' || c == '_' || c == '.'

/-- An identifier that is safe as a storage key. -/
structure SessionId where
  text : Text
  nonempty : text ≠ []
  short : utf8Len text ≤ maxSessionIdBytes
  acceptable : text.all acceptableInId = true
  deriving DecidableEq

def SessionId.new (value : Text) : Except SessionError SessionId :=
  if hempty : value = [] then .error .emptySessionId
  else if hshort : utf8Len value ≤ maxSessionIdBytes then
    if hall : value.all acceptableInId = true then .ok ⟨value, hempty, hshort, hall⟩
    else .error .invalidSessionId
  else .error .sessionIdTooLong

theorem SessionId.new_text (id : SessionId) : SessionId.new id.text = .ok id := by
  rw [new, dif_neg id.nonempty, dif_pos id.short, dif_pos id.acceptable]

inductive Role where
  | system
  | user
  | assistant
  | tool
  deriving DecidableEq, Repr

def Role.asStr : Role → Text
  | .system => "system".toList
  | .user => "user".toList
  | .assistant => "assistant".toList
  | .tool => "tool".toList

structure Message where
  id : UInt64
  role : Role
  content : Text
  unixMillis : UInt64
  /-- Whether the message must survive every truncation. -/
  pinned : Bool
  deriving DecidableEq, Repr

def Message.isAnchor (message : Message) : Bool := message.pinned || message.role == .system

/-- A summary stands for the messages from `first` to `last`. -/
structure Summary where
  first : UInt64
  last : UInt64
  text : Text
  unixMillis : UInt64
  deriving DecidableEq, Repr

def Summary.covers (summary : Summary) (id : UInt64) : Bool :=
  decide (summary.first ≤ id) && decide (id ≤ summary.last)

def checkBody (text : Text) : Except SessionError Unit :=
  if text.isEmpty then .error .emptyMessage
  else if utf8Len text > maxMessageBytes then .error .messageTooLong
  else .ok ()

def checkSummary (summary : Summary) : Except SessionError Unit :=
  if summary.first > summary.last then .error .invalidSummaryRange else checkBody summary.text

/-! ## The session -/

structure Session where
  id : SessionId
  messages : List Message
  summaries : List Summary
  nextOrdinal : UInt64
  deriving DecidableEq

namespace Session

def new (id : SessionId) : Session := ⟨id, [], [], 0⟩

variable (s : Session)

/-- `append`: the next identifier is used up only with the message. -/
def append (role : Role) (content : Text) (unixMillis : UInt64) :
    Except SessionError UInt64 × Session :=
  match checkBody content with
  | .error error => (.error error, s)
  | .ok () =>
    if s.messages.length ≥ maxMessages then (.error .tooManyMessages, s)
    else if s.nextOrdinal = u64Max then (.error .sessionExhausted, s)
    else
      (.ok s.nextOrdinal,
        { s with
          nextOrdinal := s.nextOrdinal + 1
          messages := s.messages ++ [⟨s.nextOrdinal, role, content, unixMillis, false⟩] })

/-- Changes the first message with this identifier. -/
def modifyMessage (id : UInt64) (change : Message → Message) : List Message → Option (List Message)
  | [] => none
  | message :: rest =>
    if message.id = id then some (change message :: rest)
    else (modifyMessage id change rest).map (message :: ·)

/-- `pin`, and whether there was such a message. -/
def pin (id : UInt64) : Bool × Session :=
  match modifyMessage id (fun message => { message with pinned := true }) s.messages with
  | some messages => (true, { s with messages := messages })
  | none => (false, s)

/-- `replace`: the identifier stays. -/
def replace (id : UInt64) (role : Role) (content : Text) (unixMillis : UInt64)
    (pinned : Bool) : Except SessionError Bool × Session :=
  match checkBody content with
  | .error error => (.error error, s)
  | .ok () =>
    match modifyMessage id (fun _ => ⟨id, role, content, unixMillis, pinned⟩) s.messages with
    | some messages => (.ok true, { s with messages := messages })
    | none => (.ok false, s)

/-- `remove`: the next ordinal stays. -/
def remove (id : UInt64) : Option Message × Session :=
  match s.messages.findIdx? (·.id == id) with
  | some index => (s.messages[index]?, { s with messages := s.messages.eraseIdx index })
  | none => (none, s)

/-- `absorb`: a summary takes the place of the messages that it covers, anchors apart. -/
def absorb (summary : Summary) : Except SessionError Nat × Session :=
  match checkSummary summary with
  | .error error => (.error error, s)
  | .ok () =>
    if s.summaries.length ≥ maxSummaries then (.error .tooManySummaries, s)
    else
      let messages := s.messages.filter fun message =>
        message.isAnchor || !summary.covers message.id
      (.ok (s.messages.length - messages.length),
        { s with messages := messages, summaries := s.summaries ++ [summary] })

end Session

/-! ## Documents -/

/-- The strings of the JSON library: what it writes it reads, and an escaped byte takes at most
six. -/
structure JsonStrings where
  encode : Text → Text
  decode : Text → Option Text
  decode_encode : ∀ text, decode (encode text) = some text
  encode_length : ∀ text, utf8Len (encode text) ≤ 6 * utf8Len text + 2

inductive Token where
  /-- As it stands in the document, quotes and escapes included. -/
  | raw (encoded : Text)
  | owned (value : Text)
  deriving DecidableEq, Repr

structure MessageDocument where
  id : UInt64
  role : Role
  content : Token
  unixMillis : UInt64
  pinned : Bool
  deriving DecidableEq, Repr

structure SummaryDocument where
  first : UInt64
  last : UInt64
  text : Token
  unixMillis : UInt64
  deriving DecidableEq, Repr

structure SessionDocument where
  id : Token
  messages : List MessageDocument
  summaries : List SummaryDocument
  nextOrdinal : UInt64
  deriving DecidableEq, Repr

inductive DocumentError where
  /-- The token is longer than any string within the bound. -/
  | encodedTooLong
  | invalidString
  | stringTooLong
  /-- The sequence has more elements than its bound. -/
  | invalidLength
  | bound (error : SessionError)
  | nonMonotonicMessages
  deriving DecidableEq, Repr

variable (json : JsonStrings)

/-- `BoundedString::deserialize`. -/
def boundedString (max : Nat) : Token → Except DocumentError Text
  | .raw encoded =>
    if utf8Len encoded > 6 * max + 2 then .error .encodedTooLong
    else
      match json.decode encoded with
      | none => .error .invalidString
      | some value => if utf8Len value > max then .error .stringTooLong else .ok value
  | .owned value => if utf8Len value > max then .error .stringTooLong else .ok value

/-- `BoundedVec::deserialize`: the element past the bound is seen, but not read. -/
def boundedVec {α β : Type} (max : Nat) (read : α → Except DocumentError β) (items : List α) :
    Except DocumentError (List β) := do
  let values ← (items.take max).mapM read
  if items.length > max then .error .invalidLength else .ok values

/-- A broken rule of the session is an error of the document. -/
def asBound {α : Type} : Except SessionError α → Except DocumentError α
  | .ok a => .ok a
  | .error error => .error (.bound error)

def SessionId.deserialize (token : Token) : Except DocumentError SessionId := do
  let value ← boundedString json maxSessionIdBytes token
  asBound (SessionId.new value)

def Message.deserialize (document : MessageDocument) : Except DocumentError Message := do
  let content ← boundedString json maxMessageBytes document.content
  asBound (checkBody content)
  return ⟨document.id, document.role, content, document.unixMillis, document.pinned⟩

def Summary.deserialize (document : SummaryDocument) : Except DocumentError Summary := do
  let text ← boundedString json maxMessageBytes document.text
  let summary : Summary := ⟨document.first, document.last, text, document.unixMillis⟩
  asBound (checkSummary summary)
  return summary

/-- `slice::is_sorted_by`. -/
def isSortedBy {α : Type} (before : α → α → Bool) : List α → Bool
  | a :: b :: rest => before a b && isSortedBy before (b :: rest)
  | _ => true

/-- `u64::saturating_add(1)`. -/
def ordinalAfter (id : UInt64) : UInt64 := if id = u64Max then u64Max else id + 1

namespace Session

/-- `Session::restore`: the next ordinal is put behind the messages. -/
def restore (id : SessionId) (messages : List Message) (summaries : List Summary)
    (nextOrdinal : UInt64) : Except DocumentError Session := do
  if !isSortedBy (fun earlier later => decide (earlier.id < later.id)) messages then
    throw .nonMonotonicMessages
  messages.forM fun message => asBound (checkBody message.content)
  summaries.forM fun summary => asBound (checkSummary summary)
  let afterLast := messages.getLast?.elim 0 fun message => ordinalAfter message.id
  return ⟨id, messages, summaries, max nextOrdinal afterLast⟩

def deserialize (document : SessionDocument) : Except DocumentError Session := do
  let id ← SessionId.deserialize json document.id
  let messages ← boundedVec maxMessages (Message.deserialize json) document.messages
  let summaries ← boundedVec maxSummaries (Summary.deserialize json) document.summaries
  restore id messages summaries document.nextOrdinal

def serialize (s : Session) : SessionDocument where
  id := .raw (json.encode s.id.text)
  messages := s.messages.map fun message =>
    ⟨message.id, message.role, .raw (json.encode message.content), message.unixMillis,
      message.pinned⟩
  summaries := s.summaries.map fun summary =>
    ⟨summary.first, summary.last, .raw (json.encode summary.text), summary.unixMillis⟩
  nextOrdinal := s.nextOrdinal

end Session

/-! ## Runs -/

inductive SessionOp where
  | append (role : Role) (content : Text) (unixMillis : UInt64)
  | pin (id : UInt64)
  | replace (id : UInt64) (role : Role) (content : Text) (unixMillis : UInt64) (pinned : Bool)
  | remove (id : UInt64)
  | absorb (summary : Summary)
  /-- The session is written out and read back. -/
  | reload

inductive SessionReply where
  | appended (result : Except SessionError UInt64)
  | pinned (found : Bool)
  | replaced (result : Except SessionError Bool)
  | removed (message : Option Message)
  | absorbed (result : Except SessionError Nat)
  | reloaded (result : Except DocumentError Unit)

/-- An error, or no message to work on. -/
def SessionReply.refused : SessionReply → Bool
  | .appended result => !result.isOk
  | .pinned found => !found
  | .replaced result => result.toOption != some true
  | .removed message => message.isNone
  | .absorbed result => !result.isOk
  | .reloaded result => !result.isOk

def Session.step (s : Session) : SessionOp → SessionReply × Session
  | .append role content unixMillis =>
    let out := s.append role content unixMillis
    (.appended out.1, out.2)
  | .pin id =>
    let out := s.pin id
    (.pinned out.1, out.2)
  | .replace id role content unixMillis pinned =>
    let out := s.replace id role content unixMillis pinned
    (.replaced out.1, out.2)
  | .remove id =>
    let out := s.remove id
    (.removed out.1, out.2)
  | .absorb summary =>
    let out := s.absorb summary
    (.absorbed out.1, out.2)
  | .reload =>
    match Session.deserialize json (s.serialize json) with
    | .ok restored => (.reloaded (.ok ()), restored)
    | .error error => (.reloaded (.error error), s)

/-- A session to begin with: a new one, or one that a document is read into. -/
def Session.Starts (s : Session) : Prop :=
  (∃ id, s = Session.new id) ∨ ∃ document, Session.deserialize json document = .ok s

end GtaClaw.Memory
