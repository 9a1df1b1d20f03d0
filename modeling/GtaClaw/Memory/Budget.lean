import GtaClaw.Memory.SessionIds

/-!
# Token budgets and truncation

`planTruncation` decides which messages of a session go into the input of a model
call: the anchors first, then summaries from the newest back, then the other
messages from the newest back until one does not fit. A tool result at the head
of that window has lost its request and is dropped as well.

The source goes through the messages from the end and turns its two lists around
afterwards. Here the walk is a fold from the right, which leaves them in order.

`Planned` is what a plan is: the messages that are not anchors are cut in three,
and only the last part is admitted.
-/

namespace GtaClaw.Memory

open Channel (Text)

def usizeMax : Nat := 2 ^ 64 - 1

/-- `usize::saturating_add`. -/
def saturatingAdd (a b : Nat) : Nat := min (a + b) usizeMax

/-- `+=` on `usize`, where overflow is not checked. -/
def wrappingAdd (a b : Nat) : Nat := (a + b) % (usizeMax + 1)

theorem saturatingAdd_eq {a b : Nat} (h : a + b ≤ usizeMax) : saturatingAdd a b = a + b :=
  Nat.min_eq_left h

theorem wrappingAdd_eq {a b : Nat} (h : a + b ≤ usizeMax) : wrappingAdd a b = a + b :=
  Nat.mod_eq_of_lt (Nat.lt_succ_of_le h)

theorem wrappingAdd_le (a b : Nat) : wrappingAdd a b ≤ a + b := Nat.mod_le _ _

/-- Estimates the token cost of text. -/
structure TokenCounter where
  countText : Text → Nat
  countMessage : Message → Nat
  countSummary : Summary → Nat
  framingOverhead : Nat

/-- The provided methods of the trait. -/
def TokenCounter.ofText (countText : Text → Nat) (framingOverhead : Nat) : TokenCounter where
  countText := countText
  countMessage message :=
    saturatingAdd (saturatingAdd (countText message.content) (countText message.role.asStr))
      framingOverhead
  countSummary summary := saturatingAdd (countText summary.text) framingOverhead
  framingOverhead := framingOverhead

inductive BudgetError where
  | emptyWindow
  | reservationTooLarge
  | invalidDensity
  | anchorsExceedBudget
  | inconsistentMessages
  deriving DecidableEq, Repr

/-- A deterministic character-density estimate. -/
structure HeuristicTokenCounter where
  charactersPerToken : Nat
  framingOverhead : Nat
  density : charactersPerToken ≠ 0

namespace HeuristicTokenCounter

def countText (counter : HeuristicTokenCounter) (text : Text) : Nat :=
  if text.isEmpty then 0
  else (text.length + (counter.charactersPerToken - 1)) / counter.charactersPerToken

def toTokenCounter (counter : HeuristicTokenCounter) : TokenCounter :=
  .ofText counter.countText counter.framingOverhead

end HeuristicTokenCounter

/-- The token allowance for one model call. -/
structure TokenBudget where
  contextWindow : Nat
  reservedForOutput : Nat
  leaves_room : reservedForOutput < contextWindow
  deriving DecidableEq

def TokenBudget.new (contextWindow reservedForOutput : Nat) : Except BudgetError TokenBudget :=
  if contextWindow = 0 then .error .emptyWindow
  else if h : reservedForOutput < contextWindow then .ok ⟨contextWindow, reservedForOutput, h⟩
  else .error .reservationTooLarge

def TokenBudget.available (budget : TokenBudget) : Nat :=
  budget.contextWindow - budget.reservedForOutput

/-- Less costs no more. -/
theorem cost_le {α : Type} {cost : α → Nat} {xs ys : List α} (h : xs.Sublist ys) :
    (xs.map cost).sum ≤ (ys.map cost).sum :=
  (h.map cost).sum_le_sum fun _ _ => Nat.zero_le _

/-- Why a message was or was not admitted. -/
inductive Admission where
  | anchor
  | recent
  | overBudget
  | behindTruncation
  | orphanedToolResult
  deriving DecidableEq, Repr

/-- What goes into the input of a call, and what does not. -/
structure TruncationPlan where
  admitted : List (UInt64 × Admission)
  dropped : List (UInt64 × Admission)
  summaries : Nat
  usedTokens : Nat
  deriving DecidableEq, Repr

/-! ## The passes -/

/-- The summaries, newest first: the first that does not fit ends the pass. -/
def admitSummaries (counter : TokenCounter) (available : Nat) : Nat → List Summary → Nat × Nat
  | used, [] => (used, 0)
  | used, summary :: older =>
    if saturatingAdd used (counter.countSummary summary) > available then (used, 0)
    else
      let rest := admitSummaries counter available (wrappingAdd used (counter.countSummary summary))
        older
      (rest.1, rest.2 + 1)

/-- The walk over the messages, newest first. -/
structure Walk where
  used : Nat
  truncated : Bool
  window : List Message
  dropped : List (UInt64 × Admission)

/-- One message of the walk, anchors aside. -/
def Walk.visit (counter : TokenCounter) (available : Nat) (message : Message) (walk : Walk) :
    Walk :=
  if message.isAnchor then walk
  else if walk.truncated then
    { walk with dropped := (message.id, .behindTruncation) :: walk.dropped }
  else if saturatingAdd walk.used (counter.countMessage message) > available then
    { walk with truncated := true, dropped := (message.id, .overBudget) :: walk.dropped }
  else
    { walk with
      used := wrappingAdd walk.used (counter.countMessage message)
      window := message :: walk.window }

def walkBack (counter : TokenCounter) (available used : Nat) (messages : List Message) : Walk :=
  messages.foldr (Walk.visit counter available) ⟨used, false, [], []⟩

/-- Tool results at the head of the window are dropped. -/
def dropOrphans (counter : TokenCounter) :
    Nat → List (UInt64 × Admission) → List Message → Nat × List (UInt64 × Admission) × List Message
  | used, dropped, [] => (used, dropped, [])
  | used, dropped, message :: window =>
    if message.role = .tool then
      dropOrphans counter (used - counter.countMessage message)
        (dropped ++ [(message.id, .orphanedToolResult)]) window
    else (used, dropped, message :: window)

/-- The entries by identifier, sorted only if they are not. -/
def sortedById (entries : List (UInt64 × Admission)) : List (UInt64 × Admission) :=
  if isSortedBy (fun a b => decide (a.1 ≤ b.1)) entries then entries
  else entries.mergeSort fun a b => decide (a.1 ≤ b.1)

/-- **The plan of a session**, within the budget. -/
def planTruncation (messages : List Message) (summaries : List Summary) (budget : TokenBudget)
    (counter : TokenCounter) : Except BudgetError TruncationPlan :=
  let anchors := messages.filter Message.isAnchor
  let used := anchors.foldl (fun used message =>
    saturatingAdd used (counter.countMessage message)) 0
  if used > budget.available then .error .anchorsExceedBudget
  else
    let afterSummaries := admitSummaries counter budget.available used summaries.reverse
    let walk := walkBack counter budget.available afterSummaries.1 messages
    let opened := dropOrphans counter walk.used walk.dropped walk.window
    .ok
      { admitted := sortedById (anchors.map (fun message => (message.id, Admission.anchor)) ++
          opened.2.2.map fun message => (message.id, Admission.recent))
        dropped := sortedById opened.2.1
        summaries := afterSummaries.2
        usedTokens := opened.1 }

/-! ## What the passes do -/

def messagesCost (counter : TokenCounter) (messages : List Message) : Nat :=
  (messages.map counter.countMessage).sum

def summariesCost (counter : TokenCounter) (summaries : List Summary) : Nat :=
  (summaries.map counter.countSummary).sum

/-- The messages that truncation may drop. -/
def passing (messages : List Message) : List Message := messages.filter (!·.isAnchor)

variable {counter : TokenCounter} {available used : Nat} {messages older recent : List Message}

@[simp] theorem messagesCost_cons (message : Message) (messages : List Message) :
    messagesCost counter (message :: messages) =
      counter.countMessage message + messagesCost counter messages := by
  simp [messagesCost]

@[simp] theorem messagesCost_append (a b : List Message) :
    messagesCost counter (a ++ b) = messagesCost counter a + messagesCost counter b := by
  simp [messagesCost]

theorem messagesCost_perm {a b : List Message} (h : a.Perm b) :
    messagesCost counter a = messagesCost counter b :=
  (h.map _).sum_eq

theorem summariesCost_cons (summary : Summary) (summaries : List Summary) :
    summariesCost counter (summary :: summaries) =
      counter.countSummary summary + summariesCost counter summaries := by
  simp [summariesCost]

theorem passing_cons (message : Message) (messages : List Message) :
    passing (message :: messages) =
      if message.isAnchor then passing messages else message :: passing messages := by
  cases h : message.isAnchor <;> simp [passing, h]

theorem walkBack_cons (message : Message) (messages : List Message) :
    walkBack counter available used (message :: messages) =
      Walk.visit counter available message (walkBack counter available used messages) := rfl

open List

theorem foldl_saturatingAdd (h : used ≤ usizeMax) :
    messages.foldl (fun used message => saturatingAdd used (counter.countMessage message)) used =
      min (used + messagesCost counter messages) usizeMax := by
  induction messages generalizing used with
  | nil => exact (Nat.min_eq_left h).symm
  | cons message rest ih =>
    rw [foldl_cons, saturatingAdd, ih (by omega), messagesCost_cons]
    omega

theorem admitSummaries_spec {newest : List Summary} (hused : used ≤ available)
    (hfits : used + summariesCost counter newest ≤ usizeMax) :
    ∃ taken older, newest = taken ++ older ∧
      (admitSummaries counter available used newest).2 = taken.length ∧
      (admitSummaries counter available used newest).1 = used + summariesCost counter taken ∧
      used + summariesCost counter taken ≤ available := by
  induction newest generalizing used with
  | nil => exact ⟨[], [], rfl, rfl, rfl, hused⟩
  | cons summary older ih =>
    rw [summariesCost_cons] at hfits
    rw [admitSummaries, saturatingAdd_eq (by omega), wrappingAdd_eq (by omega)]
    split_ifs with hroom
    · exact ⟨[], summary :: older, rfl, rfl, rfl, hused⟩
    obtain ⟨taken, rest, rfl, hcount, hused', hbound⟩ := ih (not_lt.mp hroom) (by omega)
    have htaken := @summariesCost_cons counter summary taken
    refine ⟨summary :: taken, rest, rfl, ?_, ?_, by omega⟩
    · simp only [hcount, length_cons]
    · simp only [hused']
      omega

/-- The walk keeps a suffix of the messages that may be dropped, and reports the others. -/
theorem walk_spec (hused : used ≤ available)
    (hfits : used + messagesCost counter (passing messages) ≤ usizeMax) :
    ∃ older, passing messages = older ++ (walkBack counter available used messages).window ∧
      (walkBack counter available used messages).dropped.map (·.1) = older.map (·.id) ∧
      ((walkBack counter available used messages).truncated = false → older = []) ∧
      (walkBack counter available used messages).used =
        used + messagesCost counter (walkBack counter available used messages).window ∧
      (walkBack counter available used messages).used ≤ available := by
  induction messages with
  | nil => exact ⟨[], rfl, rfl, fun _ => rfl, rfl, hused⟩
  | cons message rest ih =>
    rw [walkBack_cons]
    rw [passing_cons] at hfits ⊢
    by_cases hanchor : message.isAnchor = true
    · rw [if_pos hanchor] at hfits ⊢
      rw [Walk.visit, if_pos hanchor]
      exact ih hfits
    · rw [if_neg hanchor] at hfits ⊢
      rw [messagesCost_cons] at hfits
      obtain ⟨older, hcut, hdropped, htruncated, hcost, hbound⟩ := ih (by omega)
      generalize walkBack counter available used rest = walk at *
      rw [Walk.visit, if_neg hanchor]
      split
      · -- An older message does not come back behind one that was dropped.
        exact ⟨message :: older, by rw [hcut]; rfl, by simp [hdropped], fun h => by simp_all,
          hcost, hbound⟩
      rename_i hopen
      have hall : older = [] := htruncated (by simpa using hopen)
      subst hall
      rw [nil_append] at hcut
      have hroom : walk.used + counter.countMessage message ≤ usizeMax := by
        rw [hcost, ← hcut]
        omega
      rw [saturatingAdd_eq hroom, wrappingAdd_eq hroom]
      split_ifs with hfit
      · exact ⟨[message], by rw [hcut]; rfl, by simpa using hdropped, fun h => by simp_all,
          hcost, hbound⟩
      refine ⟨[], by rw [hcut]; rfl, hdropped, fun _ => rfl, ?_, not_lt.mp hfit⟩
      show walk.used + counter.countMessage message =
        used + messagesCost counter (message :: walk.window)
      rw [messagesCost_cons]
      omega

theorem dropOrphans_eq (dropped : List (UInt64 × Admission)) (window : List Message) :
    dropOrphans counter used dropped window =
      (used - messagesCost counter (window.takeWhile (·.role = .tool)),
        dropped ++ (window.takeWhile (·.role = .tool)).map fun m => (m.id, .orphanedToolResult),
        window.dropWhile (·.role = .tool)) := by
  induction window generalizing used dropped with
  | nil => simp [dropOrphans, messagesCost]
  | cons message rest ih =>
    rw [dropOrphans]
    split_ifs with htool
    · rw [ih]
      simp [htool, Nat.sub_sub]
    · simp [htool, messagesCost]

theorem sortedById_perm (entries : List (UInt64 × Admission)) : (sortedById entries).Perm entries := by
  unfold sortedById
  split
  · exact List.Perm.refl _
  · exact mergeSort_perm _ _

theorem sortedById_sorted (entries : List (UInt64 × Admission)) :
    (sortedById entries).Pairwise (·.1 ≤ ·.1) := by
  unfold sortedById
  split_ifs with hsorted
  · rw [← isChain_iff_pairwise]
    simpa only [isSortedBy_iff, decide_eq_true_eq] using hsorted
  · have hsorted : (entries.mergeSort fun a b => decide (a.1 ≤ b.1)).Pairwise
        fun a b => decide (a.1 ≤ b.1) = true := by
      refine pairwise_mergeSort (fun a b c hab hbc => ?_) (fun a b => ?_) entries
      · rw [decide_eq_true_eq] at hab hbc ⊢
        exact UInt64.le_trans hab hbc
      · rw [Bool.or_eq_true, decide_eq_true_eq, decide_eq_true_eq]
        exact UInt64.le_total _ _
    simpa only [decide_eq_true_eq] using hsorted

/-! ## The plan -/

/-- The messages that a plan admits, in the order of the session. -/
def keptMessages (messages recent : List Message) : List Message :=
  messages.filter fun message => message.isAnchor || recent.contains message

/-- How a plan cuts a session: of the messages that may be dropped the older ones did not fit, the
orphans are tool results without a request, and the recent ones are admitted. -/
structure Planned (counter : TokenCounter) (available : Nat) (messages : List Message)
    (summaries : List Summary) (plan : TruncationPlan) (older orphans recent : List Message)
    (oldSummaries taken : List Summary) : Prop where
  cut : passing messages = older ++ (orphans ++ recent)
  admitted : plan.admitted.map (·.1) = (keptMessages messages recent).map (·.id)
  dropped : (plan.dropped.map (·.1)).Perm ((older ++ orphans).map (·.id))
  summaries_cut : summaries = oldSummaries ++ taken
  summaries_count : plan.summaries = taken.length
  used : plan.usedTokens = messagesCost counter (keptMessages messages recent) +
    summariesCost counter taken
  within : plan.usedTokens ≤ available

theorem passing_keptMessages (hnodup : messages.Nodup) (hcut : passing messages = older ++ recent) :
    passing (keptMessages messages recent) = recent := by
  have hfilter : passing (keptMessages messages recent) =
      (passing messages).filter (recent.contains ·) := by
    simp only [passing, keptMessages, filter_filter]
    refine filter_congr (fun message _ => ?_)
    cases message.isAnchor <;> simp
  have hdisjoint : ∀ message ∈ older, recent.contains message = false := by
    intro message hmem
    have hpassing : (older ++ recent).Nodup := hcut ▸ hnodup.filter _
    have hout : message ∉ recent := fun hin =>
      (nodup_append.mp hpassing).2.2 message hmem message hin rfl
    simpa using hout
  rw [hfilter, hcut, filter_append, filter_eq_nil_iff.mpr (by simpa using hdisjoint),
    filter_eq_self.mpr (by simp), nil_append]

open Message

theorem keptMessages_perm (hnodup : messages.Nodup) (hcut : passing messages = older ++ recent) :
    (messages.filter isAnchor ++ recent).Perm (keptMessages messages recent) := by
  have hanchors : (keptMessages messages recent).filter isAnchor =
      messages.filter isAnchor := by
    rw [keptMessages, filter_filter]
    refine filter_congr (fun message _ => ?_)
    cases message.isAnchor <;> simp
  have hsplit := filter_append_perm isAnchor (keptMessages messages recent)
  rwa [hanchors, show (keptMessages messages recent).filter (fun m => !m.isAnchor) = recent from
    passing_keptMessages hnodup hcut] at hsplit

theorem nodup_of_increasing (h : messages.Pairwise (·.id < ·.id)) : messages.Nodup := by
  refine List.Pairwise.imp (fun {a b} hlt => ?_) h
  rintro rfl
  exact UInt64.lt_irrefl _ hlt

theorem messagesCost_split (messages : List Message) :
    messagesCost counter messages = messagesCost counter (messages.filter isAnchor) +
      messagesCost counter (passing messages) := by
  rw [← messagesCost_append]
  exact (messagesCost_perm (filter_append_perm isAnchor messages)).symm

theorem planTruncation_spec {summaries : List Summary}
    {budget : TokenBudget} {plan : TruncationPlan} (hsorted : messages.Pairwise (·.id < ·.id))
    (hfits : messagesCost counter messages + summariesCost counter summaries ≤ usizeMax)
    (h : planTruncation messages summaries budget counter = .ok plan) :
    ∃ older orphans recent oldSummaries taken, Planned counter budget.available messages summaries
      plan older orphans recent oldSummaries taken := by
  have hsplit := @messagesCost_split counter messages
  have hreverse : summariesCost counter summaries.reverse = summariesCost counter summaries := by
    rw [summariesCost, summariesCost, map_reverse, sum_reverse]
  unfold planTruncation at h
  dsimp only at h
  rw [foldl_saturatingAdd (Nat.zero_le _), Nat.zero_add, Nat.min_eq_left (by omega)] at h
  split at h
  · cases h
  rename_i hanchors
  obtain ⟨taken, oldSummaries, hnewest, hcount, hafter, hbound⟩ :=
    @admitSummaries_spec counter budget.available
      (messagesCost counter (messages.filter isAnchor)) summaries.reverse
      (by omega) (by omega)
  generalize admitSummaries counter budget.available
    (messagesCost counter (messages.filter isAnchor)) summaries.reverse = admitted at *
  have htaken : summariesCost counter taken ≤ summariesCost counter summaries := by
    rw [← hreverse, hnewest]
    exact cost_le (sublist_append_left _ _)
  rw [← hafter] at hbound
  obtain ⟨older, hcut, hdropped, -, hused, hwithin⟩ :=
    @walk_spec counter budget.available admitted.1 messages hbound (by omega)
  generalize walkBack counter budget.available admitted.1 messages = walk at *
  rw [dropOrphans_eq] at h
  have hwindow := takeWhile_append_dropWhile (p := (·.role = .tool)) (l := walk.window)
  generalize walk.window.takeWhile (·.role = .tool) = orphans at *
  generalize walk.window.dropWhile (·.role = .tool) = recent at *
  cases h
  have hcut' : passing messages = (older ++ orphans) ++ recent := by
    rw [hcut, ← hwindow, append_assoc]
  have hperm := keptMessages_perm (nodup_of_increasing hsorted) hcut'
  have hkeptCost : messagesCost counter (messages.filter isAnchor ++ recent) =
      messagesCost counter (keptMessages messages recent) := messagesCost_perm hperm
  rw [messagesCost_append] at hkeptCost
  rw [← hwindow, messagesCost_append] at hused
  refine ⟨older, orphans, recent, oldSummaries.reverse, taken.reverse, ?_, ?_, ?_, ?_, ?_, ?_, ?_⟩
  · rw [hcut', append_assoc]
  · refine List.Perm.eq_of_pairwise (fun a b _ _ hab hba => UInt64.le_antisymm hab hba)
      (pairwise_map.mpr (sortedById_sorted _))
      (pairwise_map.mpr ((hsorted.sublist filter_sublist).imp UInt64.le_of_lt)) ?_
    refine ((sortedById_perm _).map _).trans ?_
    rw [map_append, map_map, map_map]
    have hids := hperm.map (·.id)
    rw [map_append] at hids
    exact hids
  · refine ((sortedById_perm _).map _).trans ?_
    rw [map_append, hdropped, map_append, map_map]
    rfl
  · rw [← reverse_append, ← hnewest, reverse_reverse]
  · rw [length_reverse]
    exact hcount
  · have htakenCost : summariesCost counter taken.reverse = summariesCost counter taken := by
      rw [summariesCost, summariesCost, map_reverse, sum_reverse]
    dsimp only
    omega
  · exact (Nat.sub_le _ _).trans hwithin

/-! ## Orphans -/

/-- The walk takes its window out of the messages, and reports no orphans. -/
theorem walk_window (messages : List Message) :
    (walkBack counter available used messages).window <+ messages ∧
      ∀ entry ∈ (walkBack counter available used messages).dropped,
        entry.2 ≠ .orphanedToolResult := by
  induction messages with
  | nil => exact ⟨.refl _, nofun⟩
  | cons message rest ih =>
    obtain ⟨hwindow, hdropped⟩ := ih
    rw [walkBack_cons, Walk.visit]
    split
    · exact ⟨hwindow.cons _, hdropped⟩
    split
    · exact ⟨hwindow.cons _, forall_mem_cons.mpr ⟨nofun, hdropped⟩⟩
    split
    · exact ⟨hwindow.cons _, forall_mem_cons.mpr ⟨nofun, hdropped⟩⟩
    · exact ⟨hwindow.cons_cons _, hdropped⟩

theorem saturatingAdd_le (a b : Nat) : saturatingAdd a b ≤ a + b := min_le_left _ _

/-- What fits is taken. -/
theorem walk_all (hfits : used + messagesCost counter (passing messages) ≤ available) :
    ∃ used' ≤ used + messagesCost counter (passing messages),
      walkBack counter available used messages = ⟨used', false, passing messages, []⟩ := by
  induction messages with
  | nil => exact ⟨used, Nat.le_refl _, rfl⟩
  | cons message rest ih =>
    rw [walkBack_cons]
    rw [passing_cons] at hfits ⊢
    by_cases hanchor : message.isAnchor = true
    · rw [if_pos hanchor] at hfits ⊢
      rw [Walk.visit, if_pos hanchor]
      exact ih hfits
    · rw [if_neg hanchor, messagesCost_cons] at hfits ⊢
      obtain ⟨used', hused, hwalk⟩ := ih (by omega)
      have hsum := wrappingAdd_le used' (counter.countMessage message)
      have hle := saturatingAdd_le used' (counter.countMessage message)
      refine ⟨_, hsum.trans (by omega), ?_⟩
      rw [hwalk, Walk.visit, if_neg hanchor, if_neg Bool.false_ne_true, if_neg]
      dsimp only
      omega

theorem admitSummaries_le (newest : List Summary) :
    (admitSummaries counter available used newest).1 ≤ used + summariesCost counter newest := by
  induction newest generalizing used with
  | nil => exact le_rfl
  | cons summary older ih =>
    rw [admitSummaries, summariesCost_cons]
    split
    · omega
    · have hsum := wrappingAdd_le used (counter.countSummary summary)
      refine ih.trans ?_
      omega

section Orphans

variable {summaries : List Summary} {budget : TokenBudget} {plan : TruncationPlan}
  (h : planTruncation messages summaries budget counter = .ok plan)
include h

/-- The two lists of a plan, and what the walk began with. -/
theorem planTruncation_lists : ∃ used walk, walk = walkBack counter budget.available used messages ∧
    used ≤ messagesCost counter (messages.filter isAnchor) + summariesCost counter summaries ∧
    plan.dropped.Perm (walk.dropped ++
      (walk.window.takeWhile (·.role = .tool)).map fun m => (m.id, .orphanedToolResult)) ∧
    plan.admitted.Perm ((messages.filter isAnchor).map (fun m => (m.id, .anchor)) ++
      (walk.window.dropWhile (·.role = .tool)).map fun m => (m.id, .recent)) := by
  unfold planTruncation at h
  dsimp only at h
  split at h
  · cases h
  cases h
  simp only [dropOrphans_eq]
  refine ⟨_, _, rfl, (admitSummaries_le _).trans ?_, sortedById_perm _, sortedById_perm _⟩
  rw [foldl_saturatingAdd (Nat.zero_le _), summariesCost, map_reverse, sum_reverse, Nat.zero_add]
  exact Nat.add_le_add_right (min_le_left _ _) _

/-- What stands in front of an orphan is admitted exactly if it is an anchor, so the request that
it answers may well be. A session that fits is admitted whole exactly if the first message that
is no anchor is no tool result. -/
theorem orphans_exact (hsorted : messages.Pairwise (·.id < ·.id)) :
    (∀ before message behind request, messages = before ++ message :: behind →
      (message.id, .orphanedToolResult) ∈ plan.dropped →
      (before.filter (·.role ≠ .tool)).getLast? = some request →
      (request.id ∈ plan.admitted.map (·.1) ↔ request.isAnchor = true)) ∧
    (messagesCost counter messages + summariesCost counter summaries ≤ budget.available →
      (plan.dropped = [] ↔ ∀ message ∈ (passing messages).head?, message.role ≠ .tool)) := by
  obtain ⟨used, walk, hwalk, hused, hdropped, hadmitted⟩ := planTruncation_lists h
  refine ⟨fun before message behind request hcut horphan hrequest => ?_, fun hfits => ?_⟩
  · obtain ⟨hwindow, hreasons⟩ := hwalk ▸ walk_window messages
    have hinj : ∀ m ∈ messages, ∀ m' ∈ messages, m.id = m'.id → m = m' :=
      inj_on_of_nodup_map (pairwise_map.mpr (hsorted.imp UInt64.ne_of_lt))
    obtain ⟨tool, htool, hid⟩ :
        ∃ tool ∈ walk.window.takeWhile (·.role = .tool), tool.id = message.id := by
      rcases mem_append.mp (hdropped.mem_iff.mp horphan) with hold | hnew
      · exact absurd rfl (hreasons _ hold)
      · obtain ⟨tool, htool, heq⟩ := mem_map.mp hnew
        exact ⟨tool, htool, congrArg Prod.fst heq⟩
    have hmem : request ∈ before := (mem_filter.mp (mem_of_getLast? hrequest)).1
    have hfront : request.id < message.id := by
      rw [hcut] at hsorted
      exact (pairwise_append.mp hsorted).2.2 _ hmem _ mem_cons_self
    have hin : request ∈ messages := hcut ▸ mem_append_left _ hmem
    rw [(hadmitted.map _).mem_iff, map_append, map_map, map_map, mem_append]
    constructor
    · rintro (hanchor | hrecent)
      · obtain ⟨m, hm, heq⟩ := mem_map.mp hanchor
        obtain ⟨hm, hyes⟩ := mem_filter.mp hm
        exact hinj m hm request hin heq ▸ hyes
      · -- the window behind the orphans is behind the request
        obtain ⟨m, hm, heq⟩ := mem_map.mp hrecent
        have hpair := hsorted.sublist hwindow
        rw [← takeWhile_append_dropWhile (p := (·.role = .tool)) (l := walk.window)] at hpair
        have hlt := (pairwise_append.mp hpair).2.2 _ htool _ hm
        rw [hid, show m.id = request.id from heq] at hlt
        exact absurd (UInt64.lt_trans hlt hfront) (UInt64.lt_irrefl _)
    · intro hanchor
      exact .inl (mem_map.mpr ⟨request, mem_filter.mpr ⟨hin, hanchor⟩, rfl⟩)
  · rw [messagesCost_split] at hfits
    obtain ⟨used', -, hall⟩ := @walk_all counter budget.available used messages (by omega)
    rw [hall] at hwalk
    subst hwalk
    rw [← length_eq_zero_iff, hdropped.length_eq]
    cases passing messages with
    | nil => simp
    | cons message rest => by_cases htool : message.role = .tool <;> simp [htool]

end Orphans

/-- A token for everything. -/
def unitCounter : TokenCounter := ⟨fun _ => 1, fun _ => 1, fun _ => 1, 0⟩

def pinnedRequest : Message := ⟨0, .assistant, [], 0, true⟩

def itsResult : Message := ⟨1, .tool, [], 0, false⟩

def orphaning : TruncationPlan := ⟨[(0, .anchor)], [(1, .orphanedToolResult)], 0, 1⟩

/-- The request is admitted, everything fits, and the result is dropped. -/
theorem orphan_of_anchor :
    planTruncation [pinnedRequest, itsResult] [] ⟨9, 1, by decide⟩ unitCounter = .ok orphaning ∧
      messagesCost unitCounter [pinnedRequest, itsResult] + summariesCost unitCounter [] ≤ 8 := by
  decide +kernel

theorem orphans_exact_pinned :
    pinnedRequest.id ∈ orphaning.admitted.map (·.1) ↔ pinnedRequest.isAnchor = true :=
  (orphans_exact (show planTruncation [pinnedRequest, itsResult] [] ⟨9, 1, by decide⟩ unitCounter =
    .ok orphaning by decide +kernel) (by decide +kernel)).1 [_] itsResult [] _ rfl
    (by decide +kernel) rfl

end GtaClaw.Memory
