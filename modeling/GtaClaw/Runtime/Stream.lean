import GtaClaw.Lib.Run
import GtaClaw.Runtime.Ids

/-!
# Assembling a provider stream

The assembler turns the chunks of a provider into numbered events and one
assistant message. A size guard runs on every chunk; it reads a running total of
the assembled bytes instead of walking the message. `intoPartial` and `resume`
take an assembler apart and build it again, and `resume` computes the total anew.

That the two totals agree is what makes an interruption invisible. They agree as
long as the total has not saturated, and where it could saturate, under the
largest limit there is, the guard never fires at all.
-/

namespace GtaClaw.Runtime

open Channel Lib
open List hiding after

/-! ## Messages -/

inductive ProviderChunk where
  | textDelta (text : String)
  | reasoningDelta (text : String)
  | toolCallBegin (callId : ToolCallId) (name : String)
  | toolCallArgumentsDelta (callId : ToolCallId) (fragment : String)
  | toolCallEnd (callId : ToolCallId)
  | messageEnd

structure ToolCall where
  callId : ToolCallId
  name : String
  arguments : String
  deriving DecidableEq

/-- A tool call whose arguments never finished streaming. -/
structure PendingToolCall where
  callId : ToolCallId
  name : String
  partialArguments : String
  deriving DecidableEq

structure AssistantMessage where
  text : String
  reasoning : String
  toolCalls : List ToolCall
  deriving DecidableEq

structure PartialAssistantMessage where
  text : String
  reasoning : String
  toolCalls : List ToolCall
  pendingToolCalls : List PendingToolCall
  nextSequence : Nat
  deriving DecidableEq

inductive StreamError where
  | duplicateToolCall (callId : ToolCallId)
  | unknownToolCall (callId : ToolCallId)
  | emptyToolName (callId : ToolCallId)
  | contentAfterEnd
  | unterminatedToolCall (callId : ToolCallId)
  | messageTooLarge (limit actual : Nat)
  deriving DecidableEq

inductive StreamPayload where
  | textDelta (delta : String)
  | reasoningDelta (delta : String)
  | toolCallStarted (callId : ToolCallId) (name : String)
  | toolCallCompleted (call : ToolCall)
  | messageCompleted (message : AssistantMessage)
  deriving DecidableEq

structure StreamEvent where
  sequence : Nat
  payload : StreamPayload
  deriving DecidableEq

/-! ## The assembler -/

structure OpenToolCall where
  callId : ToolCallId
  name : String
  arguments : String
  deriving DecidableEq

structure StreamAssembler where
  text : String
  reasoning : String
  toolCalls : List ToolCall
  opened : List OpenToolCall
  /-- Running total of the assembled bytes. -/
  assembled : Nat
  nextSequence : Nat
  limit : Nat
  ended : Bool
  deriving DecidableEq

namespace StreamAssembler

def withLimit (limit : Nat) : StreamAssembler := ⟨"", "", [], [], 0, 0, limit, false⟩

def toolCallBytes (call : ToolCall) : Nat := call.name.utf8ByteSize + call.arguments.utf8ByteSize

def openBytes (call : OpenToolCall) : Nat := call.name.utf8ByteSize + call.arguments.utf8ByteSize

/-- The total that `resume` adds up, in `usize`. -/
def resume (p : PartialAssistantMessage) (limit : Nat) : StreamAssembler :=
  let opened := p.pendingToolCalls.map fun pending =>
    (⟨pending.callId, pending.name, pending.partialArguments⟩ : OpenToolCall)
  let assembled := (p.text.utf8ByteSize + p.reasoning.utf8ByteSize
    + (p.toolCalls.map toolCallBytes).sum + (opened.map openBytes).sum) % (u64Max + 1)
  ⟨p.text, p.reasoning, p.toolCalls, opened, assembled, p.nextSequence, limit, false⟩

variable (a : StreamAssembler)

def intoPartial : PartialAssistantMessage :=
  ⟨a.text, a.reasoning, a.toolCalls,
    a.opened.map fun call => ⟨call.callId, call.name, call.arguments⟩, a.nextSequence⟩

def finish : Option AssistantMessage :=
  if a.ended then some ⟨a.text, a.reasoning, a.toolCalls⟩ else none

def isKnown (callId : ToolCallId) : Bool :=
  a.opened.any (·.callId = callId) || a.toolCalls.any (·.callId = callId)

def reserve (additional : Nat) : Except StreamError Unit :=
  let actual := saturatingAdd a.assembled additional
  if actual > a.limit then .error (.messageTooLarge a.limit actual) else .ok ()

def charge (bytes : Nat) : StreamAssembler :=
  { a with assembled := saturatingAdd a.assembled bytes }

abbrev Pushed := Except StreamError (List StreamEvent) × StreamAssembler

/-- The event with the next number. -/
def emit (payload : StreamPayload) : Pushed :=
  (.ok [⟨a.nextSequence, payload⟩], { a with nextSequence := saturatingAdd a.nextSequence 1 })

/-- The fragment goes to the first open call of that name. -/
def appendArguments (callId : ToolCallId) (fragment : String) :
    List OpenToolCall → List OpenToolCall
  | [] => []
  | call :: rest =>
    if call.callId = callId then { call with arguments := call.arguments ++ fragment } :: rest
    else call :: appendArguments callId fragment rest

/-- What follows a reservation that is granted; otherwise its error, and nothing changes. -/
def reserving (additional : Nat) (granted : Pushed) : Pushed :=
  match a.reserve additional with
  | .error e => (.error e, a)
  | .ok () => granted

/-- One chunk; an error returns early and changes nothing. -/
def push (chunk : ProviderChunk) : Pushed :=
  if a.ended then (.error .contentAfterEnd, a)
  else match chunk with
    | .textDelta text =>
      if text.isEmpty then (.ok [], a)
      else a.reserving text.utf8ByteSize <|
        let a : StreamAssembler := { a with text := a.text ++ text }
        (a.charge text.utf8ByteSize).emit (.textDelta text)
    | .reasoningDelta text =>
      if text.isEmpty then (.ok [], a)
      else a.reserving text.utf8ByteSize <|
        let a : StreamAssembler := { a with reasoning := a.reasoning ++ text }
        (a.charge text.utf8ByteSize).emit (.reasoningDelta text)
    | .toolCallBegin callId name =>
      if (trimmed name).isEmpty then (.error (.emptyToolName callId), a)
      else if a.isKnown callId then (.error (.duplicateToolCall callId), a)
      else a.reserving name.utf8ByteSize <|
        let a : StreamAssembler := { a with opened := a.opened ++ [⟨callId, name, ""⟩] }
        (a.charge name.utf8ByteSize).emit (.toolCallStarted callId name)
    | .toolCallArgumentsDelta callId fragment =>
      a.reserving fragment.utf8ByteSize <|
        if a.opened.any (·.callId = callId) then
          let a : StreamAssembler := { a with opened := appendArguments callId fragment a.opened }
          (.ok [], a.charge fragment.utf8ByteSize)
        else (.error (.unknownToolCall callId), a)
    | .toolCallEnd callId =>
      match a.opened.find? (·.callId = callId) with
      | none => (.error (.unknownToolCall callId), a)
      | some call =>
        let completed : ToolCall := ⟨call.callId, call.name, call.arguments⟩
        let a : StreamAssembler := { a with
          opened := a.opened.eraseP (·.callId = callId)
          toolCalls := a.toolCalls ++ [completed] }
        a.emit (.toolCallCompleted completed)
    | .messageEnd =>
      match a.opened.head? with
      | some call => (.error (.unterminatedToolCall call.callId), a)
      | none =>
        let a : StreamAssembler := { a with ended := true }
        a.emit (.messageCompleted ⟨a.text, a.reasoning, a.toolCalls⟩)

/-! ## The running total -/

/-- What the total stands for. -/
def bytes : Nat :=
  a.text.utf8ByteSize + a.reasoning.utf8ByteSize + (a.toolCalls.map toolCallBytes).sum
    + (a.opened.map openBytes).sum

/-- The total is right and within the limit, or the limit cannot be exceeded. -/
def Charged : Prop :=
  (a.assembled = a.bytes ∧ a.bytes ≤ a.limit ∧ a.limit < u64Max) ∨ u64Max ≤ a.limit

variable {a : StreamAssembler} {n : Nat}

theorem reserve_ok (h : a.reserve n = .ok ()) : saturatingAdd a.assembled n ≤ a.limit := by
  unfold reserve at h
  dsimp only at h
  split at h
  · cases h
  · omega

theorem sum_appendArguments {callId : ToolCallId} (fragment : String) :
    ∀ {opened : List OpenToolCall}, opened.any (·.callId = callId) = true →
      ((appendArguments callId fragment opened).map openBytes).sum
        = (opened.map openBytes).sum + fragment.utf8ByteSize
  | [], h => by cases h
  | call :: rest, h => by
    rw [appendArguments]
    split_ifs with hc
    · simp only [map_cons, sum_cons, openBytes, String.utf8ByteSize_append]
      omega
    have hrest : rest.any (·.callId = callId) = true := by
      rw [any_cons, decide_eq_false hc] at h
      exact h
    simp only [map_cons, sum_cons, sum_appendArguments fragment hrest]
    omega

theorem sum_eraseP {p : OpenToolCall → Bool} {call : OpenToolCall} :
    ∀ {opened : List OpenToolCall}, opened.find? p = some call →
      (opened.map openBytes).sum = openBytes call + ((opened.eraseP p).map openBytes).sum
  | [], h => by cases h
  | first :: rest, h => by
    by_cases hp : p first = true
    · rw [find?_cons_of_pos hp] at h
      cases h
      rw [eraseP_cons_of_pos hp, map_cons, sum_cons]
    rw [find?_cons_of_neg hp] at h
    rw [eraseP_cons_of_neg hp]
    simp only [map_cons, sum_cons, sum_eraseP h]
    omega

/-- What a chunk can do: nothing, or move what is there around, or add bytes that it reserved. -/
inductive Pushes (a : StreamAssembler) : Pushed → Prop where
  | kept (result : Except StreamError (List StreamEvent)) : Pushes a (result, a)
  | moved {b : StreamAssembler} {events : List StreamEvent} (hlimit : b.limit = a.limit)
      (hsum : b.assembled = a.assembled) (hbytes : b.bytes = a.bytes) : Pushes a (.ok events, b)
  | added {b : StreamAssembler} {events : List StreamEvent} {n : Nat} (hlimit : b.limit = a.limit)
      (hok : a.reserve n = .ok ()) (hsum : b.assembled = saturatingAdd a.assembled n)
      (hbytes : b.bytes = a.bytes + n) : Pushes a (.ok events, b)

theorem Pushes.reserving {granted : Pushed} (h : a.reserve n = .ok () → Pushes a granted) :
    Pushes a (a.reserving n granted) := by
  unfold StreamAssembler.reserving
  cases hr : a.reserve n with
  | error e => exact .kept _
  | ok u => exact h hr

theorem pushes (a : StreamAssembler) (chunk : ProviderChunk) : Pushes a (a.push chunk) := by
  unfold StreamAssembler.push
  split
  · exact .kept _
  cases chunk with
  | textDelta text | reasoningDelta text =>
    dsimp only
    split
    · exact .kept _
    refine .reserving fun hok => .added rfl hok rfl ?_
    simp only [charge, bytes, String.utf8ByteSize_append]
    omega
  | toolCallBegin callId name =>
    dsimp only
    split
    · exact .kept _
    split
    · exact .kept _
    refine .reserving fun hok => .added rfl hok rfl ?_
    simp only [charge, bytes, map_append, map_singleton, sum_append, sum_singleton, openBytes,
      String.utf8ByteSize_empty]
    omega
  | toolCallArgumentsDelta callId fragment =>
    refine .reserving fun hok => ?_
    split_ifs with hopen
    · refine .added rfl hok rfl ?_
      simp only [charge, bytes, sum_appendArguments fragment hopen]
      omega
    · exact .kept _
  | toolCallEnd callId =>
    dsimp only
    split
    · exact .kept _
    rename_i call hf
    -- the call moves from one list to the other with the bytes it has
    refine .moved rfl rfl ?_
    simp only [bytes, sum_eraseP hf, map_append, map_singleton, sum_append, sum_singleton,
      toolCallBytes, openBytes]
    omega
  | messageEnd =>
    dsimp only
    split
    · exact .kept _
    · exact .moved rfl rfl rfl

/-- **Every chunk charges what it adds.** -/
theorem Charged.push (h : a.Charged) (chunk : ProviderChunk) : (a.push chunk).2.Charged := by
  have hpush := pushes a chunk
  unfold Charged at h ⊢
  generalize a.push chunk = pushed at hpush ⊢
  cases hpush with
  | kept => exact h
  | moved hlimit hsum hbytes =>
    rw [hlimit, hsum, hbytes]
    exact h
  | added hlimit hok hsum hbytes =>
    have hle := reserve_ok hok
    rw [hlimit, hsum, hbytes]
    unfold saturatingAdd at hle ⊢
    omega

theorem charged_withLimit (limit : Nat) : (withLimit limit).Charged := by
  by_cases h : u64Max ≤ limit
  · exact .inr h
  · exact .inl ⟨rfl, Nat.zero_le _, Nat.lt_of_not_le h⟩

/-! ## Interruptions -/

/-- The same assembler with another total. -/
def retotal (assembled : Nat) : StreamAssembler := { a with assembled }

/-- Under the largest limit every reservation is granted. -/
theorem reserving_of_max (h : u64Max ≤ a.limit) (n : Nat)
    (granted : Pushed) : a.reserving n granted = granted := by
  have hle : saturatingAdd a.assembled n ≤ u64Max := min_le_right _ _
  unfold reserving reserve
  rw [if_neg (by omega)]

/-- Under the largest limit the total does not show. -/
theorem push_retotal (h : u64Max ≤ a.limit) (t : Nat)
    (chunk : ProviderChunk) : ∃ t', (a.retotal t).push chunk
      = ((a.push chunk).1, (a.push chunk).2.retotal t') := by
  have hr : ∀ n granted, (a.retotal t).reserving n granted = granted := by
    have hmax : u64Max ≤ (a.retotal t).limit := h
    exact reserving_of_max hmax
  have hended : (a.retotal t).ended = a.ended := rfl
  have hopened : (a.retotal t).opened = a.opened := rfl
  have hknown : ∀ callId, (a.retotal t).isKnown callId = a.isKnown callId := fun _ => rfl
  unfold StreamAssembler.push
  simp only [hended, hopened, hknown, hr, reserving_of_max h]
  -- whichever branch is taken, only the total differs
  repeat' split
  all_goals exact ⟨_, rfl⟩

theorem push_limit (a : StreamAssembler) (chunk : ProviderChunk) :
    (a.push chunk).2.limit = a.limit := by
  have hpush := pushes a chunk
  generalize a.push chunk = pushed at hpush ⊢
  cases hpush with
  | kept => rfl
  | moved hlimit | added hlimit => exact hlimit

theorem run_retotal : ∀ (chunks : List ProviderChunk) {a : StreamAssembler} (_ : u64Max ≤ a.limit)
    (t : Nat), history push (a.retotal t) chunks = history push a chunks
      ∧ ∃ t', after push (a.retotal t) chunks = (after push a chunks).retotal t'
  | [], _, _, t => ⟨rfl, t, rfl⟩
  | chunk :: chunks, a, h, t => by
    obtain ⟨t', hpush⟩ := push_retotal h t chunk
    obtain ⟨hhist, hafter⟩ := run_retotal chunks (h.trans (push_limit a chunk).ge) t'
    rw [history, after, hpush]
    exact ⟨congrArg (cons _) hhist, hafter⟩

/-- An assembler that is taken apart and built again is the one it was. -/
theorem resume_intoPartial (h : a.Charged) (hopen : a.ended = false) :
    (resume a.intoPartial a.limit = a)
      ∨ (u64Max ≤ a.limit ∧ ∃ t, resume a.intoPartial a.limit = a.retotal t) := by
  have hopened : a.opened.map ((fun pending : PendingToolCall =>
      (⟨pending.callId, pending.name, pending.partialArguments⟩ : OpenToolCall))
        ∘ fun call => ⟨call.callId, call.name, call.arguments⟩) = a.opened := map_id a.opened
  have hresume : resume a.intoPartial a.limit = a.retotal (a.bytes % (u64Max + 1)) := by
    unfold resume intoPartial retotal bytes
    simp only [map_map, hopened, hopen]
  rcases h with ⟨htotal, hfits, hlt⟩ | hmax
  · left
    rw [hresume, Nat.mod_eq_of_lt (by omega), ← htotal]
    rfl
  · exact .inr ⟨hmax, _, hresume⟩

/-- **An interruption is invisible.** Whatever chunks came before, and whatever comes after:
unless the message has ended, an assembler built from what was left of the first one gives the
same events and errors for the rest, and ends in the same message. A rejected chunk changes
nothing. -/
theorem interruption_invisible (limit : Nat) (before rest : List ProviderChunk)
    (hopen : (after push (withLimit limit) before).ended = false) :
    history push (withLimit limit) (before ++ rest)
        = history push (withLimit limit) before
          ++ history push (resume (after push (withLimit limit) before).intoPartial limit) rest
      ∧ (after push (resume (after push (withLimit limit) before).intoPartial limit) rest).finish
        = (after push (withLimit limit) (before ++ rest)).finish
      ∧ (after push (resume (after push (withLimit limit) before).intoPartial limit)
          rest).intoPartial
        = (after push (withLimit limit) (before ++ rest)).intoPartial
      ∧ ∀ (a : StreamAssembler) (chunk : ProviderChunk) (e : StreamError),
          (a.push chunk).1 = .error e → (a.push chunk).2 = a := by
  obtain ⟨cut, hcut⟩ : ∃ cut, cut = after push (withLimit limit) before := ⟨_, rfl⟩
  have hinv : cut.Charged ∧ cut.limit = limit := by
    rw [hcut]
    refine after_inv (I := fun a : StreamAssembler => a.Charged ∧ a.limit = limit) ?_ before _
      ⟨charged_withLimit limit, rfl⟩ (along_true before _)
    intro a chunk ha _
    exact ⟨ha.1.push chunk, (push_limit a chunk).trans ha.2⟩
  obtain ⟨hcharged, hlimit⟩ := hinv
  rw [history_append, after_append, ← hcut]
  rw [← hcut] at hopen
  have hsame : history push (resume cut.intoPartial limit) rest = history push cut rest
      ∧ ∃ t, after push (resume cut.intoPartial limit) rest = (after push cut rest).retotal t := by
    rw [← hlimit]
    rcases resume_intoPartial hcharged hopen with hr | ⟨hmax, t, hr⟩
    · rw [hr]
      exact ⟨rfl, (after push cut rest).assembled, rfl⟩
    · rw [hr]
      exact run_retotal rest hmax t
  obtain ⟨hhist, t, hafter⟩ := hsame
  rw [hhist, hafter]
  refine ⟨rfl, rfl, rfl, fun a chunk e h => ?_⟩
  have hpush := pushes a chunk
  generalize a.push chunk = pushed at hpush h ⊢
  cases hpush with
  | kept => rfl
  | moved | added => cases h

section Concrete

def callOne : ToolCallId := ⟨"c1", by decide +kernel⟩

/-- Two tool calls of one name, the second rejected; then some text that does not fit. -/
def openingChunks : List ProviderChunk :=
  [.textDelta "hi", .toolCallBegin callOne "ls", .toolCallArgumentsDelta callOne "[1",
    .toolCallBegin callOne "rm", .textDelta "too long"]

def closingChunks : List ProviderChunk :=
  [.toolCallArgumentsDelta callOne "]", .textDelta "!!", .toolCallEnd callOne, .messageEnd]

/-- Cut while the tool call is open, with nine bytes to spend in all. -/
theorem interruption_invisible_tool_call :
    (after push (withLimit 9) openingChunks).ended = false
      ∧ (after push (resume (after push (withLimit 9) openingChunks).intoPartial 9)
          closingChunks).finish = some ⟨"hi!!", "", [⟨callOne, "ls", "[1]"⟩]⟩ := by
  have hopen : (after push (withLimit 9) openingChunks).ended = false := by decide +kernel
  have hwhole : (after push (withLimit 9) (openingChunks ++ closingChunks)).finish
      = some ⟨"hi!!", "", [⟨callOne, "ls", "[1]"⟩]⟩ := by decide +kernel
  refine ⟨hopen, ?_⟩
  rw [(interruption_invisible 9 openingChunks closingChunks hopen).2.1, hwhole]

end Concrete

end StreamAssembler

end GtaClaw.Runtime
