import GtaClaw.Memory.Budget

/-!
# Context assembly

`assemble` gives a share of the allowance to retrieved memory, plans the rest of
it for the conversation, and then goes through the session and the plan side by
side to collect the admitted messages.

The order of the identifiers is what keeps the two in step: `materialise_kept`
says that nothing the plan names is missed, so that the check behind the loop
never fails.
-/

namespace GtaClaw.Memory

open Lib List
open Channel (Text utf8Len)

def maxRetrievalLimit : Nat := 100

def maxRecordBytes : Nat := 1024 * 1024

def maxRecordTags : Nat := 64

def maxTagBytes : Nat := 128

inductive RecordError where
  | emptyText
  | textTooLong
  | tooManyTags
  | tagTooLong
  deriving DecidableEq, Repr

inductive RecordKind where
  | message
  | summary
  | note
  deriving DecidableEq, Repr

structure MemoryRecord where
  id : Text
  session : SessionId
  kind : RecordKind
  text : Text
  unixMillis : UInt64
  tags : List Text
  deriving DecidableEq

def MemoryRecord.validate (record : MemoryRecord) : Except RecordError Unit :=
  if record.text.isEmpty then .error .emptyText
  else if utf8Len record.text > maxRecordBytes then .error .textTooLong
  else if record.tags.length > maxRecordTags then .error .tooManyTags
  else if record.tags.any fun tag => utf8Len tag > maxTagBytes then .error .tagTooLong
  else .ok ()

/-- A record with its rank. The score is the bits of an `f32`, which nothing here looks at. -/
structure RetrievedItem where
  record : MemoryRecord
  score : UInt32
  deriving DecidableEq

inductive ContextError where
  | invalidShare
  | invalidRecord (error : RecordError)
  | budget (error : BudgetError)
  deriving DecidableEq, Repr

structure ContextTruncation where
  messages : List (UInt64 × Admission)
  retrieved : List Text
  unexaminedRetrieved : Nat
  deriving DecidableEq

structure AssembledContext where
  messages : List Message
  summaries : List Summary
  retrieved : List RetrievedItem
  usedTokens : Nat
  remainingTokens : Nat
  droppedMessages : Nat
  droppedRetrieved : Nat
  truncation : ContextTruncation
  deriving DecidableEq

structure ContextAssembler where
  budget : TokenBudget
  counter : TokenCounter
  retrievalSharePercent : Nat
  share_le : retrievalSharePercent ≤ 100

/-! ## The retrieved items -/

def itemCost (counter : TokenCounter) (item : RetrievedItem) : Nat :=
  saturatingAdd (counter.countText item.record.text) counter.framingOverhead

structure Retrieving where
  admitted : List RetrievedItem
  used : Nat
  dropped : List Text
  closed : Bool

/-- One retrieved item: the first that does not fit closes the share. -/
def Retrieving.examine (counter : TokenCounter) (allowance : Nat) (s : Retrieving)
    (item : RetrievedItem) : Except ContextError Retrieving :=
  match item.record.validate with
  | .error error => .error (.invalidRecord error)
  | .ok () =>
    if s.closed ∨ saturatingAdd s.used (itemCost counter item) > allowance then
      .ok { s with closed := true, dropped := s.dropped ++ [item.record.id] }
    else
      .ok { s with
        used := wrappingAdd s.used (itemCost counter item)
        admitted := s.admitted ++ [item] }

/-! ## Assembly -/

/-- The messages and the entries of the plan, side by side in the order of the identifiers. -/
def materialise : List Message → List (UInt64 × Admission) → List Message
  | [], _ => []
  | message :: messages, wanted =>
    match wanted.dropWhile fun entry => decide (entry.1 < message.id) with
    | [] => materialise messages []
    | next :: rest =>
      if next.1 = message.id then message :: materialise messages rest
      else materialise messages (next :: rest)

namespace ContextAssembler

/-- The part of the allowance that is set aside for retrieved memory. -/
def retrievalAllowance (a : ContextAssembler) : Nat :=
  min (a.budget.available * a.retrievalSharePercent) usizeMax / 100

/-- The newest summaries, oldest first. -/
def newest (summaries : List Summary) (count : Nat) : List Summary :=
  (summaries.reverse.take count).reverse

def assemble (a : ContextAssembler) (session : Session) (retrieved : List RetrievedItem) :
    Except ContextError AssembledContext := do
  let retrieving ← (retrieved.take maxRetrievalLimit).foldlM
    (Retrieving.examine a.counter a.retrievalAllowance) ⟨[], 0, [], false⟩
  let conversationWindow ← okOr (.budget .reservationTooLarge)
    (checkedSub a.budget.contextWindow retrieving.used)
  let conversationBudget ←
    (TokenBudget.new conversationWindow a.budget.reservedForOutput).mapError ContextError.budget
  let plan ← (planTruncation session.messages session.summaries conversationBudget
    a.counter).mapError ContextError.budget
  let messages := materialise session.messages plan.admitted
  if messages.length ≠ plan.admitted.length then
    throw (.budget .inconsistentMessages)
  let usedTokens := saturatingAdd retrieving.used plan.usedTokens
  let unexamined := retrieved.length - maxRetrievalLimit
  return {
    messages := messages
    summaries := newest session.summaries plan.summaries
    retrieved := retrieving.admitted
    usedTokens := usedTokens
    remainingTokens := a.budget.available - usedTokens
    droppedMessages := plan.dropped.length
    droppedRetrieved := saturatingAdd retrieving.dropped.length unexamined
    truncation := ⟨plan.dropped, retrieving.dropped, unexamined⟩ }

end ContextAssembler

/-! ## What the passes do -/

def retrievedCost (counter : TokenCounter) (items : List RetrievedItem) : Nat :=
  (items.map (itemCost counter)).sum

variable {counter : TokenCounter} {items : List RetrievedItem} {messages : List Message}

theorem retrievedCost_cons (item : RetrievedItem) (items : List RetrievedItem) :
    retrievedCost counter (item :: items) = itemCost counter item + retrievedCost counter items := by
  simp [retrievedCost]

open Retrieving

theorem examine_spec {allowance : Nat} {s s' : Retrieving}
    (h : items.foldlM (examine counter allowance) s = .ok s')
    (hused : s.used ≤ allowance) (hfits : s.used + retrievedCost counter items ≤ usizeMax) :
    ∃ taken behind, items = taken ++ behind ∧ (s.closed = true → taken = []) ∧
      s'.admitted = s.admitted ++ taken ∧ s'.used = s.used + retrievedCost counter taken ∧
      s'.used ≤ allowance := by
  induction items generalizing s with
  | nil =>
    cases h
    exact ⟨[], [], rfl, fun _ => rfl, (append_nil _).symm, rfl, hused⟩
  | cons item items ih =>
    obtain ⟨mid, hmid, h⟩ := bind_ok h
    rw [retrievedCost_cons] at hfits
    unfold examine at hmid
    split at hmid
    · cases hmid
    rw [saturatingAdd_eq (by omega), wrappingAdd_eq (by omega)] at hmid
    split_ifs at hmid with hroom
    · cases hmid
      obtain ⟨taken, behind, -, hclosed, hadmitted, hcost, hbound⟩ :=
        ih h hused (by show s.used + _ ≤ _; omega)
      have hnone := hclosed rfl
      subst hnone
      exact ⟨[], item :: items, rfl, fun _ => rfl, hadmitted, hcost, hbound⟩
    · cases hmid
      obtain ⟨hopen, hroom⟩ := not_or.mp hroom
      obtain ⟨taken, behind, rfl, -, hadmitted, hcost, hbound⟩ :=
        ih h (not_lt.mp hroom) (by show s.used + itemCost counter item + _ ≤ _; omega)
      refine ⟨item :: taken, behind, rfl, fun hclosed => absurd hclosed hopen, ?_, ?_, hbound⟩
      · rw [hadmitted]
        simp
      · rw [hcost, retrievedCost_cons]
        show s.used + itemCost counter item + _ = _
        omega

theorem retrievalAllowance_le (a : ContextAssembler) : a.retrievalAllowance ≤ a.budget.available := by
  have hshare := Nat.mul_le_mul_left a.budget.available a.share_le
  unfold ContextAssembler.retrievalAllowance
  omega

theorem materialise_cons {message : Message} {next : UInt64 × Admission}
    {rest : List (UInt64 × Admission)} (h : ¬next.1 < message.id) :
    materialise (message :: messages) (next :: rest) =
      if next.1 = message.id then message :: materialise messages rest
      else materialise messages (next :: rest) := by
  rw [materialise, dropWhile_cons, if_neg (by simpa using h)]

theorem materialise_kept {messages kept : List Message} {wanted : List (UInt64 × Admission)}
    (hsub : kept.Sublist messages) (hsorted : messages.Pairwise (·.id < ·.id))
    (hwanted : wanted.map (·.1) = kept.map (·.id)) : materialise messages wanted = kept := by
  induction hsub generalizing wanted with
  | slnil => rfl
  | @cons kept messages message hsub ih =>
    -- The next message is not in the plan, which is ahead of it already.
    obtain ⟨hfirst, hsorted⟩ := pairwise_cons.mp hsorted
    have hrest := ih hsorted hwanted
    cases wanted with
    | nil => exact hrest
    | cons next rest =>
      have hnext : message.id < next.1 := by
        have hmem : next.1 ∈ kept.map (·.id) := hwanted ▸ mem_cons_self
        obtain ⟨later, hlater, heq⟩ := mem_map.mp hmem
        rw [← heq]
        exact hfirst later (hsub.subset hlater)
      rw [materialise_cons (UInt64.lt_asymm hnext),
        if_neg (fun heq => UInt64.lt_irrefl _ (heq ▸ hnext))]
      exact hrest
  | @cons_cons kept messages message hsub ih =>
    obtain ⟨-, hsorted⟩ := pairwise_cons.mp hsorted
    cases wanted with
    | nil => cases hwanted
    | cons next rest =>
      rw [map_cons, map_cons, cons.injEq] at hwanted
      have hstay : ¬next.1 < message.id := by
        rw [hwanted.1]
        exact UInt64.lt_irrefl _
      rw [materialise_cons hstay, if_pos hwanted.1, ih hsorted hwanted.2]

theorem newest_eq {summaries old taken : List Summary} (h : summaries = old ++ taken) :
    ContextAssembler.newest summaries taken.length = taken := by
  rw [ContextAssembler.newest, h, reverse_append, take_append_of_le_length (by simp),
    take_of_length_le (by simp), reverse_reverse]

/-! ## The assembled context -/

/-- An item is only refused for what is wrong with its record. -/
theorem examine_error {allowance : Nat} {s : Retrieving} {error : ContextError}
    (h : items.foldlM (examine counter allowance) s = .error error) :
    ∃ recordError, error = .invalidRecord recordError := by
  induction items generalizing s with
  | nil => cases h
  | cons item items ih =>
    rw [foldlM_cons] at h
    cases hfirst : examine counter allowance s item with rw [hfirst] at h
    | ok mid => exact ih h
    | error first =>
      cases h
      unfold examine at hfirst
      split at hfirst
      · exact ⟨_, (Except.error.inj hfirst).symm⟩
      · split at hfirst <;> cases hfirst

namespace ContextAssembler

def contentCost (counter : TokenCounter) (context : AssembledContext) : Nat :=
  messagesCost counter context.messages + summariesCost counter context.summaries +
    retrievedCost counter context.retrieved

/-- How a context comes about: the items are the first of the ranking, and the plan is made for
what they leave. -/
structure Assembled (a : ContextAssembler) (session : Session) (retrieved : List RetrievedItem)
    (context : AssembledContext) (plan : TruncationPlan) : Prop where
  ranking : context.retrieved <+: retrieved
  share : retrievedCost a.counter context.retrieved ≤ a.retrievalAllowance
  planned : ∃ older orphans recent oldSummaries,
    Planned a.counter (a.budget.available - retrievedCost a.counter context.retrieved)
      session.messages session.summaries plan older orphans recent oldSummaries context.summaries ∧
    context.messages = keptMessages session.messages recent
  used : context.usedTokens = retrievedCost a.counter context.retrieved + plan.usedTokens
  remaining : context.remainingTokens = a.budget.available - context.usedTokens
  dropped : context.truncation.messages = plan.dropped

theorem assemble_cases (a : ContextAssembler) {session : Session}
    (hsorted : session.messages.Pairwise (·.id < ·.id)) {retrieved : List RetrievedItem}
    (hfits : messagesCost a.counter session.messages + summariesCost a.counter session.summaries +
      retrievedCost a.counter retrieved ≤ usizeMax) :
    (∃ error, a.assemble session retrieved = .error error ∧
      error ≠ .budget .inconsistentMessages) ∨
    ∃ context plan, a.assemble session retrieved = .ok context ∧
      a.Assembled session retrieved context plan := by
  unfold assemble
  cases hitems : (retrieved.take maxRetrievalLimit).foldlM
      (examine a.counter a.retrievalAllowance) ⟨[], 0, [], false⟩ with
  | error error =>
    obtain ⟨recordError, rfl⟩ := examine_error hitems
    exact .inl ⟨_, rfl, nofun⟩
  | ok retrieving =>
    have htake : retrievedCost a.counter (retrieved.take maxRetrievalLimit) ≤
        retrievedCost a.counter retrieved := cost_le (take_sublist _ _)
    obtain ⟨items, behind, hcut, -, hadmitted, hcost, hshare⟩ :=
      examine_spec hitems (Nat.zero_le _) (by show 0 + _ ≤ _; omega)
    have hadmitted : retrieving.admitted = items := hadmitted
    have hcost : retrieving.used = retrievedCost a.counter items := by
      rw [hcost]
      exact Nat.zero_add _
    have hallowance := retrievalAllowance_le a
    have hwindow : a.budget.available ≤ a.budget.contextWindow := Nat.sub_le _ _
    have hsub : checkedSub a.budget.contextWindow retrieving.used =
        some (a.budget.contextWindow - retrieving.used) := if_pos (by omega)
    dsimp only [bind, Except.bind]
    rw [hsub]
    dsimp only [okOr]
    cases hbudget : TokenBudget.new (a.budget.contextWindow - retrieving.used)
        a.budget.reservedForOutput with
    | error error =>
      refine .inl ⟨_, rfl, fun heq => ?_⟩
      cases heq
      unfold TokenBudget.new at hbudget
      split_ifs at hbudget <;> cases hbudget
    | ok budget =>
      have havailable : budget.available = a.budget.available - retrieving.used := by
        unfold TokenBudget.new at hbudget
        split_ifs at hbudget
        cases hbudget
        exact Nat.sub_right_comm ..
      dsimp only [Except.mapError]
      cases hplan : planTruncation session.messages session.summaries budget a.counter with
      | error error =>
        refine .inl ⟨_, rfl, fun heq => ?_⟩
        cases heq
        simp only [planTruncation] at hplan
        split at hplan <;> cases hplan
      | ok plan =>
        obtain ⟨older, orphans, recent, oldSummaries, taken, hplanned⟩ :=
          planTruncation_spec hsorted (by omega) hplan
        have hmessages : materialise session.messages plan.admitted =
            keptMessages session.messages recent :=
          materialise_kept filter_sublist hsorted hplanned.admitted
        have hlength : (keptMessages session.messages recent).length =
            plan.admitted.length := by
          have hids := congrArg length hplanned.admitted
          rw [length_map, length_map] at hids
          exact hids.symm
        dsimp only
        rw [hmessages, if_neg (not_not.mpr hlength)]
        refine .inr ⟨_, plan, rfl, ?_⟩
        rw [havailable, hcost] at hplanned
        refine ⟨?_, ?_, ⟨older, orphans, recent, oldSummaries, ?_, rfl⟩, ?_, rfl, rfl⟩
        · have hprefix : items <+: retrieved.take maxRetrievalLimit := ⟨behind, hcut.symm⟩
          exact hadmitted ▸ hprefix.trans (List.take_prefix _ _)
        · rw [hadmitted, ← hcost]
          exact hshare
        · rw [hplanned.summaries_count, newest_eq hplanned.summaries_cut, hadmitted]
          exact hplanned
        · have hkept : messagesCost a.counter (keptMessages session.messages recent) ≤
              messagesCost a.counter session.messages :=
            cost_le filter_sublist
          have htaken : summariesCost a.counter taken ≤
              summariesCost a.counter session.summaries :=
            cost_le (hplanned.summaries_cut ▸ sublist_append_right _ _)
          have hitemsCost : retrievedCost a.counter items ≤
              retrievedCost a.counter (retrieved.take maxRetrievalLimit) :=
            cost_le (hcut ▸ sublist_append_left _ _)
          have hused := hplanned.used
          rw [hadmitted, hcost]
          exact saturatingAdd_eq (by omega)

/-- What a context holds costs what it says, anchors and the newest messages are in it, and what
is not in it is reported. -/
theorem assemble_accounts (json : JsonStrings) (a : ContextAssembler) {session : Session}
    (hsession : session.Reachable json) (retrieved : List RetrievedItem)
    (hfits : messagesCost a.counter session.messages + summariesCost a.counter session.summaries +
      retrievedCost a.counter retrieved ≤ usizeMax) :
    (∀ context, a.assemble session retrieved = .ok context →
      contentCost a.counter context = context.usedTokens ∧
      context.usedTokens + context.remainingTokens = a.budget.available ∧
      (∀ message ∈ session.messages, message.isAnchor = true → message ∈ context.messages) ∧
      passing context.messages <:+ passing session.messages ∧
      (context.retrieved <+: retrieved ∧
        retrievedCost a.counter context.retrieved ≤ a.retrievalAllowance) ∧
      (context.messages.Sublist session.messages ∧
        (context.messages.map (·.id) ++ context.truncation.messages.map (·.1)).Perm
          (session.messages.map (·.id)) ∧
        (session.messages.map (·.id)).Nodup)) ∧
    a.assemble session retrieved ≠ .error (.budget .inconsistentMessages) := by
  have hsorted := hsession.kept.increasing
  have hnodup := nodup_of_increasing hsorted
  rcases assemble_cases a hsorted hfits with ⟨error, hfailed, hother⟩ | ⟨made, plan, hmade, hparts⟩
  · rw [hfailed]
    refine ⟨nofun, fun heq => hother (Except.error.inj heq)⟩
  rw [hmade]
  refine ⟨fun context heq => ?_, nofun⟩
  cases heq
  obtain ⟨older, orphans, recent, oldSummaries, hplanned, hmessages⟩ := hparts.planned
  have hwithin := hplanned.within
  have hused := hplanned.used
  have hcut : passing session.messages = (older ++ orphans) ++ recent := by
    rw [hplanned.cut, append_assoc]
  have hshare := hparts.share
  have hallowance := retrievalAllowance_le a
  have htotal := hparts.used
  have hremaining := hparts.remaining
  refine ⟨?_, by omega, ?_, ?_, ⟨hparts.ranking, hshare⟩, ?_, ?_, ?_⟩
  · rw [contentCost, hmessages]
    omega
  · intro message hmem hanchor
    rw [hmessages, keptMessages, mem_filter, hanchor]
    exact ⟨hmem, rfl⟩
  · rw [hmessages, passing_keptMessages hnodup hcut, hcut]
    exact suffix_append _ _
  · rw [hmessages]
    exact filter_sublist
  · -- Anchors and recent messages are kept, the other two parts are reported.
    rw [hparts.dropped, hmessages]
    have hkept := (keptMessages_perm hnodup hcut).symm.map (·.id)
    have hall := (filter_append_perm Message.isAnchor session.messages).map (·.id)
    refine (hkept.append hplanned.dropped).trans (List.Perm.trans ?_ hall)
    rw [← map_append, append_assoc]
    refine (List.Perm.append_left _ ?_).map _
    show (recent ++ (older ++ orphans)).Perm (passing session.messages)
    rw [hcut]
    exact perm_append_comm
  · exact pairwise_map.mpr (hsorted.imp UInt64.ne_of_lt)

end ContextAssembler

/-- Four characters to the token, and room for twelve tokens. -/
def sampleAssembler : ContextAssembler :=
  ⟨⟨16, 4, by decide⟩, HeuristicTokenCounter.toTokenCounter ⟨4, 1, by decide⟩, 50, by decide⟩

/-- An instruction, a question, an answer and the next question. -/
def sampleTalk : List SessionOp :=
  [.append .system "rules".toList 1, .append .user "first".toList 2,
    .append .assistant "answer".toList 3, .append .user "next".toList 4]

/-- The first question does not fit, and is reported. -/
theorem assemble_accounts_sample :
    ∃ context, sampleAssembler.assemble
        (after (Session.step plainStrings) (.new sampleId) sampleTalk) [] = .ok context ∧
      context.messages.map (·.id) = [0, 3] ∧
      context.truncation.messages = [(1, .behindTruncation), (2, .overBudget)] ∧
      ContextAssembler.contentCost sampleAssembler.counter context = context.usedTokens := by
  have hrun : (sampleAssembler.assemble (after (Session.step plainStrings) (.new sampleId)
      sampleTalk) []).toOption.map
        (fun context => (context.messages.map (·.id), context.truncation.messages)) =
      some ([0, 3], [(1, .behindTruncation), (2, .overBudget)]) := by
    decide +kernel
  have haccounts := (ContextAssembler.assemble_accounts plainStrings sampleAssembler
    ⟨.new sampleId, sampleTalk, .inl ⟨sampleId, rfl⟩, rfl⟩ [] (by decide +kernel)).1
  cases hmade : sampleAssembler.assemble (after (Session.step plainStrings) (.new sampleId)
      sampleTalk) [] with
  | error error =>
    rw [hmade] at hrun
    cases hrun
  | ok context =>
    rw [hmade] at hrun haccounts
    obtain ⟨hids, hdropped⟩ := Prod.mk.inj (Option.some.inj hrun)
    exact ⟨context, rfl, hids, hdropped, (haccounts context rfl).1⟩

end GtaClaw.Memory
