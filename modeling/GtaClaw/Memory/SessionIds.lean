import GtaClaw.Memory.Session

/-!
# Identifiers are never reused

`Kept` is what every session keeps that is read from a document or built by the
operations. `Move` says what one operation can do, and every property of the runs
comes from it. The messages are behind the next ordinal, unless the ordinals are
used up, and then nothing is appended any more.

The summaries are behind it only as long as each one was when it came in: neither
`absorb` nor `restore` compares the range of a summary with the next ordinal.
-/

namespace GtaClaw.Memory

open Lib List
open Channel (Text utf8Len)

/-! ## Ordinals -/

theorem toNat_add_one {n : UInt64} (h : n ≠ u64Max) : (n + 1).toNat = n.toNat + 1 := by
  have hne : n.toNat ≠ 2 ^ 64 - 1 := by
    intro heq
    exact h (UInt64.toNat_inj.mp heq)
  have hlt := n.toNat_lt
  show (n.toNat + 1) % 2 ^ 64 = _
  omega

theorem le_u64Max (n : UInt64) : n ≤ u64Max := by
  have hlt := n.toNat_lt
  show n.toNat ≤ 2 ^ 64 - 1
  omega

theorem lt_add_one {n : UInt64} (h : n ≠ u64Max) : n < n + 1 := by
  rw [UInt64.lt_iff_toNat_lt, toNat_add_one h]
  omega

/-- An identifier is behind the next ordinal, or there is no next identifier. -/
def Behind (id next : UInt64) : Prop := id < next ∨ next = u64Max

instance (id next : UInt64) : Decidable (Behind id next) := inferInstanceAs (Decidable (_ ∨ _))

variable {id : UInt64}

theorem Behind.mono {next next' : UInt64} (h : Behind id next) (hle : next ≤ next') :
    Behind id next' := by
  rcases h with h | h
  · exact .inl (UInt64.lt_of_lt_of_le h hle)
  · refine .inr (UInt64.le_antisymm (le_u64Max next') ?_)
    exact h ▸ hle

theorem Behind.lt {next : UInt64} (h : Behind id next) (hleft : next ≠ u64Max) : id < next :=
  h.resolve_right hleft

theorem le_max_ordinal (a b : UInt64) : b ≤ max a b := by
  show b ≤ if a ≤ b then b else a
  split_ifs with hlt
  · exact UInt64.le_refl _
  · exact UInt64.le_of_lt (UInt64.not_le.mp hlt)

theorem max_ordinal_eq {a b : UInt64} (h : b ≤ a) : max a b = a := by
  show (if a ≤ b then b else a) = a
  split_ifs with hle
  · exact UInt64.le_antisymm h hle
  · rfl

theorem ordinalAfter_le {next : UInt64} (h : Behind id next) : ordinalAfter id ≤ next := by
  unfold ordinalAfter
  rcases h with h | h
  · have hne : id ≠ u64Max := by
      intro heq
      exact UInt64.not_le.mpr h (heq ▸ le_u64Max next)
    rw [if_neg hne, UInt64.le_iff_toNat_le, toNat_add_one hne]
    exact UInt64.lt_iff_toNat_lt.mp h
  · rw [h]
    exact le_u64Max _

theorem behind_ordinalAfter (id : UInt64) : Behind id (ordinalAfter id) := by
  unfold ordinalAfter
  split_ifs with hne
  · exact .inr rfl
  · exact .inl (lt_add_one hne)

/-! ## What a session keeps -/

theorem isSortedBy_iff {α : Type} {before : α → α → Bool} {xs : List α} :
    isSortedBy before xs = true ↔ xs.IsChain (before · · = true) := by
  induction xs with
  | nil => simp [isSortedBy]
  | cons a xs ih =>
    cases xs with
    | nil => simp [isSortedBy]
    | cons b rest => rw [isSortedBy, Bool.and_eq_true, ih, isChain_cons_cons]

structure Session.Kept (s : Session) : Prop where
  increasing : s.messages.Pairwise (·.id < ·.id)
  bodies : ∀ message ∈ s.messages, checkBody message.content = .ok ()
  ranges : ∀ summary ∈ s.summaries, checkSummary summary = .ok ()
  fewMessages : s.messages.length ≤ maxMessages
  fewSummaries : s.summaries.length ≤ maxSummaries
  behind : ∀ message ∈ s.messages, Behind message.id s.nextOrdinal

variable {messages : List Message}

theorem sorted_iff :
    isSortedBy (fun earlier later => decide (earlier.id < later.id)) messages = true ↔
      messages.Pairwise (·.id < ·.id) := by
  rw [isSortedBy_iff, ← isChain_iff_pairwise]
  simp only [decide_eq_true_eq]

theorem asBound_ok_iff {α : Type} {x : Except SessionError α} {a : α} :
    asBound x = .ok a ↔ x = .ok a := by
  cases x with
  | error error => exact ⟨nofun, nofun⟩
  | ok b => exact ⟨fun h => congrArg _ (Except.ok.inj h), fun h => congrArg _ (Except.ok.inj h)⟩

theorem boundedVec_length {α β : Type} {max : Nat} {read : α → Except DocumentError β}
    {items : List α} {values : List β} (h : boundedVec max read items = .ok values) :
    values.length ≤ max := by
  obtain ⟨read', hread, h⟩ := bind_ok h
  split at h
  · cases h
  cases h
  have hlength := (mapM_ok_iff.mp hread).length_eq
  rw [← hlength]
  exact length_take_le _ _

variable {s : Session}

namespace Session

theorem restore_ok_iff {id : SessionId} {summaries : List Summary} {nextOrdinal : UInt64} :
    restore id messages summaries nextOrdinal = .ok s ↔
      messages.Pairwise (·.id < ·.id) ∧
      (∀ message ∈ messages, checkBody message.content = .ok ()) ∧
      (∀ summary ∈ summaries, checkSummary summary = .ok ()) ∧
      s = ⟨id, messages, summaries,
        max nextOrdinal (messages.getLast?.elim 0 fun message => ordinalAfter message.id)⟩ := by
  have hbodies : (messages.forM fun message => asBound (checkBody message.content)) = .ok () ↔
      ∀ message ∈ messages, checkBody message.content = .ok () := by
    simp only [forM_ok_iff, asBound_ok_iff]
  have hranges : (summaries.forM fun summary => asBound (checkSummary summary)) = .ok () ↔
      ∀ summary ∈ summaries, checkSummary summary = .ok () := by
    simp only [forM_ok_iff, asBound_ok_iff]
  rw [← sorted_iff, ← hbodies, ← hranges]
  unfold restore
  constructor
  · intro h
    split_ifs at h with hsorted
    · cases h
    obtain ⟨_, hbody, h⟩ := bind_ok h
    obtain ⟨_, hrange, h⟩ := bind_ok h
    exact ⟨by simpa using hsorted, hbody, hrange, (Except.ok.inj h).symm⟩
  · intro h
    obtain ⟨hsorted, hbody, hrange, rfl⟩ := h
    rw [hsorted, hbody, hrange]
    rfl

theorem kept_of_deserialize {json : JsonStrings} {document : SessionDocument}
    (h : deserialize json document = .ok s) : s.Kept := by
  obtain ⟨id, -, h⟩ := bind_ok h
  obtain ⟨messages, hmessages, h⟩ := bind_ok h
  obtain ⟨summaries, hsummaries, h⟩ := bind_ok h
  obtain ⟨hsorted, hbodies, hranges, rfl⟩ := restore_ok_iff.mp h
  refine ⟨hsorted, hbodies, hranges, boundedVec_length hmessages, boundedVec_length hsummaries, ?_⟩
  intro message hmem
  cases hlast : messages.getLast? with
  | none =>
    rw [getLast?_eq_none_iff.mp hlast] at hmem
    cases hmem
  | some last =>
    have hafter : ordinalAfter last.id ≤ max document.nextOrdinal (ordinalAfter last.id) :=
      le_max_ordinal _ _
    have hle : message.id ≤ last.id := by
      obtain ⟨init, rfl⟩ := getLast?_eq_some_iff.mp hlast
      rcases mem_append.mp hmem with hinit | hend
      · exact UInt64.le_of_lt ((pairwise_append.mp hsorted).2.2 message hinit last (by simp))
      · rw [mem_singleton.mp hend]
        exact UInt64.le_refl _
    have hbehind : Behind message.id (ordinalAfter last.id) :=
      (behind_ordinalAfter last.id).imp_left (UInt64.lt_of_le_of_lt hle)
    simpa [hlast] using hbehind.mono hafter

end Session

/-! ## Writing and reading back -/

variable (json : JsonStrings)

theorem boundedString_encode {max : Nat} {text : Text}
    (h : utf8Len text ≤ max) : boundedString json max (.raw (json.encode text)) = .ok text := by
  have hlength := json.encode_length text
  have hencoded : ¬utf8Len (json.encode text) > 6 * max + 2 := by omega
  rw [boundedString, if_neg hencoded, json.decode_encode]
  exact if_neg (by omega)

theorem length_of_checkBody {text : Text} (h : checkBody text = .ok ()) :
    utf8Len text ≤ maxMessageBytes := by
  unfold checkBody at h
  split at h
  · cases h
  split at h
  · cases h
  · rename_i hlong
    omega

theorem body_of_checkSummary {summary : Summary} (h : checkSummary summary = .ok ()) :
    checkBody summary.text = .ok () := by
  unfold checkSummary at h
  split at h
  · cases h
  · exact h

theorem boundedVec_map {α β : Type} {max : Nat} {read : α → Except DocumentError β}
    {write : β → α} {values : List β} (hlength : values.length ≤ max)
    (h : ∀ value ∈ values, read (write value) = .ok value) :
    boundedVec max read (values.map write) = .ok values := by
  have hread : (values.map write).mapM read = .ok values := by
    rw [mapM_ok_iff, forall₂_map_left_iff]
    exact forall₂_same.mpr h
  rw [boundedVec, take_of_length_le (by simpa using hlength), hread]
  show (if (values.map write).length > max then _ else _) = _
  rw [if_neg (by simpa using hlength)]

namespace Session

theorem deserialize_serialize (h : s.Kept) : deserialize json (s.serialize json) = .ok s := by
  have hid : SessionId.deserialize json (s.serialize json).id = .ok s.id := by
    rw [SessionId.deserialize, serialize, boundedString_encode json s.id.short]
    show asBound (SessionId.new s.id.text) = _
    rw [s.id.new_text]
    rfl
  have hmessages : boundedVec maxMessages (Message.deserialize json) (s.serialize json).messages =
      .ok s.messages := by
    refine boundedVec_map h.fewMessages (fun message hmem => ?_)
    have hbody := h.bodies message hmem
    rw [Message.deserialize, boundedString_encode json (length_of_checkBody hbody)]
    show (asBound (checkBody message.content) >>= fun _ => _) = _
    rw [hbody]
    rfl
  have hsummaries : boundedVec maxSummaries (Summary.deserialize json)
      (s.serialize json).summaries = .ok s.summaries := by
    refine boundedVec_map h.fewSummaries (fun summary hmem => ?_)
    have hrange := h.ranges summary hmem
    rw [Summary.deserialize,
      boundedString_encode json (length_of_checkBody (body_of_checkSummary hrange))]
    show (asBound (checkSummary summary) >>= fun _ => _) = _
    rw [hrange]
    rfl
  have hnext : (s.messages.getLast?.elim 0 fun message => ordinalAfter message.id) ≤
      s.nextOrdinal := by
    cases hlast : s.messages.getLast? with
    | none => exact UInt64.zero_le
    | some last => exact ordinalAfter_le (h.behind last (mem_of_getLast? hlast))
  have hrestore : restore s.id s.messages s.summaries s.nextOrdinal = .ok s := by
    rw [restore_ok_iff, max_ordinal_eq hnext]
    exact ⟨h.increasing, h.bodies, h.ranges, rfl⟩
  rw [deserialize, hid]
  rw [hmessages]
  rw [hsummaries]
  exact hrestore

/-! ## What an operation can do -/

/-- One operation: nothing, a message more, messages changed in their place, messages less, or a
summary for messages less. Only the first can be refused. -/
inductive Move (s : Session) : SessionOp → Bool → Session → Prop where
  | stays (op : SessionOp) (refused : Bool) : Move s op refused s
  | appended {role : Role} {content : Text} {unixMillis : UInt64}
      (body : checkBody content = .ok ()) (room : s.messages.length < maxMessages)
      (left : s.nextOrdinal ≠ u64Max) :
      Move s (.append role content unixMillis) false
        { s with
          nextOrdinal := s.nextOrdinal + 1
          messages := s.messages ++ [⟨s.nextOrdinal, role, content, unixMillis, false⟩] }
  | edited {op : SessionOp} {messages : List Message}
      (ids : messages.map (·.id) = s.messages.map (·.id))
      (bodies : ∀ message ∈ messages, checkBody message.content = .ok ()) :
      Move s op false { s with messages := messages }
  | removed {op : SessionOp} {messages : List Message} (sublist : messages.Sublist s.messages) :
      Move s op false { s with messages := messages }
  | absorbed {summary : Summary} {messages : List Message}
      (sublist : messages.Sublist s.messages) (range : checkSummary summary = .ok ())
      (room : s.summaries.length < maxSummaries) :
      Move s (.absorb summary) false
        { s with messages := messages, summaries := s.summaries ++ [summary] }

theorem modifyMessage_some {change : Message → Message} {good : Message → Prop}
    {changed : List Message} (h : modifyMessage id change messages = some changed)
    (hid : ∀ message, message.id = id → (change message).id = id)
    (hgood : ∀ message ∈ messages, good message ∧ good (change message)) :
    changed.map (·.id) = messages.map (·.id) ∧ ∀ message ∈ changed, good message := by
  induction messages generalizing changed with
  | nil => cases h
  | cons message rest ih =>
    obtain ⟨⟨hhere, hchanged⟩, hrest⟩ := forall_mem_cons.mp hgood
    rw [modifyMessage] at h
    split_ifs at h with heq
    · cases h
      refine ⟨?_, forall_mem_cons.mpr ⟨hchanged, fun m hm => (hrest m hm).1⟩⟩
      rw [map_cons, map_cons, hid message heq, heq]
    · obtain ⟨changed', hmodified, rfl⟩ := Option.map_eq_some_iff.mp h
      obtain ⟨hids, hall⟩ := ih hmodified hrest
      exact ⟨by rw [map_cons, map_cons, hids], forall_mem_cons.mpr ⟨hhere, hall⟩⟩

theorem step_move (h : s.Kept) (op : SessionOp) :
    Move s op (s.step json op).1.refused (s.step json op).2 := by
  cases op with
  | append role content unixMillis =>
    show Move s _ (!(s.append role content unixMillis).1.isOk) (s.append role content unixMillis).2
    unfold append
    split
    · exact .stays _ _
    rename_i hbody
    split
    · exact .stays _ _
    rename_i hroom
    split_ifs with hleft
    · exact .stays _ _
    · exact .appended hbody (by omega) hleft
  | pin id =>
    show Move s _ (!(s.pin id).1) (s.pin id).2
    unfold pin
    split
    · rename_i messages hmessages
      obtain ⟨hids, hbodies⟩ := modifyMessage_some hmessages (fun _ hid => hid)
        fun message hmem => ⟨h.bodies message hmem, h.bodies message hmem⟩
      exact .edited hids hbodies
    · exact .stays _ _
  | replace id role content unixMillis pinned =>
    show Move s _ ((s.replace id role content unixMillis pinned).1.toOption != some true)
      (s.replace id role content unixMillis pinned).2
    unfold replace
    split
    · exact .stays _ _
    rename_i hbody
    split
    · rename_i messages hmessages
      obtain ⟨hids, hbodies⟩ := modifyMessage_some hmessages (fun _ _ => rfl)
        fun message hmem => ⟨h.bodies message hmem, hbody⟩
      exact .edited hids hbodies
    · exact .stays _ _
  | remove id =>
    show Move s _ (s.remove id).1.isNone (s.remove id).2
    unfold remove
    split
    · rename_i index hindex
      rw [getElem?_eq_getElem (findIdx?_eq_some_iff_getElem.mp hindex).1]
      exact .removed (eraseIdx_sublist _ _)
    · exact .stays _ _
  | absorb summary =>
    show Move s _ (!(s.absorb summary).1.isOk) (s.absorb summary).2
    unfold absorb
    split
    · exact .stays _ _
    rename_i hrange
    split_ifs with hroom
    · exact .stays _ _
    · exact .absorbed filter_sublist hrange (by omega)
  | reload =>
    rw [step, deserialize_serialize json h]
    exact .stays _ _

variable {s' : Session} {op : SessionOp} {refused : Bool}

theorem Move.nextOrdinal_le (h : Move s op refused s') : s.nextOrdinal ≤ s'.nextOrdinal := by
  cases h with
  | appended _ _ left => exact UInt64.le_of_lt (lt_add_one left)
  | stays | edited _ _ | removed _ | absorbed _ _ _ => exact UInt64.le_refl _

theorem kept_new (id : SessionId) : (new id).Kept :=
  ⟨.nil, nofun, nofun, Nat.zero_le _, Nat.zero_le _, nofun⟩

theorem Move.kept (h : Move s op refused s') (hs : s.Kept) : s'.Kept := by
  have hless : ∀ {messages : List Message} {summaries : List Summary},
      messages.Sublist s.messages → (∀ summary ∈ summaries, checkSummary summary = .ok ()) →
      summaries.length ≤ maxSummaries →
      Kept { s with messages := messages, summaries := summaries } := by
    intro messages summaries hsub hranges hfew
    exact ⟨hs.increasing.sublist hsub, fun message hmem => hs.bodies message (hsub.subset hmem),
      hranges, hsub.length_le.trans hs.fewMessages, hfew,
      fun message hmem => hs.behind message (hsub.subset hmem)⟩
  cases h with
  | stays => exact hs
  | appended body room left =>
    refine ⟨?_, ?_, hs.ranges, ?_, hs.fewSummaries, ?_⟩
    · refine pairwise_append.mpr ⟨hs.increasing, pairwise_singleton _ _, ?_⟩
      intro message hmem new hnew
      rw [mem_singleton.mp hnew]
      exact (hs.behind message hmem).lt left
    · exact forall_mem_append.mpr ⟨hs.bodies, forall_mem_singleton.mpr body⟩
    · rw [length_append]
      exact room
    · refine forall_mem_append.mpr ⟨fun message hmem => ?_,
        forall_mem_singleton.mpr (.inl (lt_add_one left))⟩
      exact (hs.behind message hmem).mono (UInt64.le_of_lt (lt_add_one left))
  | @edited op messages ids bodies =>
    refine ⟨?_, bodies, hs.ranges, ?_, hs.fewSummaries, fun message hmem => ?_⟩
    · have hold : (s.messages.map (·.id)).Pairwise (· < ·) :=
        pairwise_map.mpr hs.increasing
      exact pairwise_map.mp (ids ▸ hold)
    · have hlength := congrArg length ids
      rw [length_map, length_map] at hlength
      exact hlength ▸ hs.fewMessages
    · have hid : message.id ∈ s.messages.map (·.id) := ids ▸ mem_map_of_mem hmem
      obtain ⟨old, hold, heq⟩ := mem_map.mp hid
      exact heq ▸ hs.behind old hold
  | removed sublist => exact hless sublist hs.ranges hs.fewSummaries
  | absorbed sublist range room =>
    refine hless sublist (forall_mem_append.mpr ⟨hs.ranges, forall_mem_singleton.mpr range⟩) ?_
    rw [length_append]
    exact room

/-! ## Runs -/

theorem Starts.kept {json : JsonStrings} (h : s.Starts json) : s.Kept := by
  rcases h with ⟨id, rfl⟩ | ⟨document, hread⟩
  · exact kept_new id
  · exact kept_of_deserialize hread

theorem kept_after (h : s.Kept) (ops : List SessionOp) : (after (step json) s ops).Kept :=
  after_inv (I := Kept) (fun _ op hs _ => (step_move json hs op).kept hs) ops s h (along_true ops s)

def Reachable (json : JsonStrings) (s : Session) : Prop :=
  ∃ start ops, start.Starts json ∧ after (step json) start ops = s

theorem Reachable.kept {json : JsonStrings} (h : s.Reachable json) : s.Kept := by
  obtain ⟨start, ops, hstart, rfl⟩ := h
  exact kept_after json hstart.kept ops

theorem nextOrdinal_le_after (h : s.Kept)
    (ops : List SessionOp) : s.nextOrdinal ≤ (after (step json) s ops).nextOrdinal := by
  induction ops generalizing s with
  | nil => exact UInt64.le_refl _
  | cons op ops ih =>
    have hmove := step_move json h op
    exact UInt64.le_trans hmove.nextOrdinal_le (ih (hmove.kept h))

/-- All that the summaries stand for is behind the next ordinal. -/
def Covered (s : Session) : Prop := ∀ summary ∈ s.summaries, Behind summary.last s.nextOrdinal

/-- A summary that is absorbed stands for identifiers that were handed out. -/
def Absorbs (s : Session) (op : SessionOp) : Prop :=
  ∀ summary, op = .absorb summary → Behind summary.last s.nextOrdinal

theorem covered_after (h : s.Kept) (hs : s.Covered)
    (ops : List SessionOp) (hops : Along (step json) Absorbs s ops) :
    (after (step json) s ops).Covered := by
  have hboth : (after (step json) s ops).Kept ∧ (after (step json) s ops).Covered := by
    refine after_inv (I := fun s => s.Kept ∧ s.Covered) (fun s op hs hop => ?_) ops s ⟨h, hs⟩ hops
    have hmove := step_move json hs.1 op
    have hle := hmove.nextOrdinal_le
    refine ⟨hmove.kept hs.1, ?_⟩
    generalize (s.step json op).2 = s', (s.step json op).1.refused = refused at hmove hle ⊢
    cases hmove with
    | absorbed sublist range room =>
      exact forall_mem_append.mpr ⟨hs.2, forall_mem_singleton.mpr (hop _ rfl)⟩
    | stays | appended _ _ _ | edited _ _ | removed _ =>
      exact fun summary hmem => (hs.2 summary hmem).mono hle
  exact hboth.2

theorem append_ok {role : Role} {content : Text} {unixMillis : UInt64}
    (h : (s.append role content unixMillis).1 = .ok id) :
    id = s.nextOrdinal ∧ s.nextOrdinal ≠ u64Max := by
  unfold append at h
  split at h
  · cases h
  split at h
  · cases h
  split at h
  · cases h
  · rename_i hleft
    exact ⟨(Except.ok.inj h).symm, hleft⟩

/-- Every run from a new session or an accepted document: the identifiers increase, a new one is
behind none that ever was there, a refused operation changes nothing and writing out is undone by
reading. A new identifier is covered by no summary if the summaries of the document and those
absorbed since were behind the next ordinal. -/
theorem ids_never_reused (json : JsonStrings) {start : Session} (hstart : start.Starts json)
    (ops : List SessionOp) :
    (after (step json) start ops).messages.Pairwise (·.id < ·.id) ∧ (∀ role content unixMillis id,
      ((after (step json) start ops).append role content unixMillis).1 = .ok id →
      (∀ k, ∀ message ∈ (after (step json) start (ops.take k)).messages, message.id < id) ∧
      (start.Covered ∧ Along (step json) Absorbs start ops →
        ∀ summary ∈ (after (step json) start ops).summaries, ∀ covered,
          summary.covers covered = true → covered < id)) ∧
    (∀ op, ((after (step json) start ops).step json op).1.refused = true →
      ((after (step json) start ops).step json op).2 = after (step json) start ops) ∧
    deserialize json ((after (step json) start ops).serialize json) =
      .ok (after (step json) start ops) := by
  have hkept := hstart.kept
  have hlast := kept_after json hkept ops
  refine ⟨hlast.increasing, fun role content unixMillis id happend => ⟨?_, ?_⟩,
    fun op hrefused => ?_, deserialize_serialize json hlast⟩
  · intro k message hmem
    obtain ⟨rfl, hleft⟩ := append_ok happend
    -- it was behind the next ordinal of that time
    have hthen := kept_after json hkept (ops.take k)
    have hlater := nextOrdinal_le_after json hthen (ops.drop k)
    rw [← after_append, take_append_drop] at hlater
    exact ((hthen.behind message hmem).mono hlater).lt hleft
  · intro hsummaries summary hmem covered hcovers
    obtain ⟨rfl, hleft⟩ := append_ok happend
    have hbehind := covered_after json hkept hsummaries.1 ops hsummaries.2 summary hmem
    have hle : covered ≤ summary.last := by
      rw [Summary.covers, Bool.and_eq_true, decide_eq_true_eq, decide_eq_true_eq] at hcovers
      exact hcovers.2
    exact UInt64.lt_of_le_of_lt hle (hbehind.lt hleft)
  · have hmove := step_move json hlast op
    rw [hrefused] at hmove
    generalize (step json _ op).2 = s' at hmove ⊢
    cases hmove
    rfl

end Session

theorem utf8Len_quoted (text : Text) : utf8Len ('"' :: (text ++ ['"'])) ≤ 6 * utf8Len text + 2 := by
  have hquote : '"'.utf8Size = 1 := rfl
  simp only [utf8Len, map_cons, map_append, map_nil, sum_cons,
    sum_append, sum_nil, hquote]
  omega

/-- Strings in quotes, without any escapes. -/
def plainStrings : JsonStrings where
  encode text := '"' :: (text ++ ['"'])
  decode token := some token.tail.dropLast
  decode_encode text := by simp
  encode_length := utf8Len_quoted

def sampleId : SessionId := ⟨"s".toList, by decide, by decide, by decide⟩

/-- Two messages, a summary for the first one, and the session written out and read back. -/
def sampleOps : List SessionOp :=
  [.append .user "a".toList 1, .append .assistant "b".toList 2,
    .absorb ⟨0, 0, "a".toList, 3⟩, .reload]

theorem ids_never_reused_sample :
    ((after (Session.step plainStrings) (.new sampleId) sampleOps).append .user "c".toList 4).1 =
      .ok 2 ∧
    ∀ summary ∈ (after (Session.step plainStrings) (.new sampleId) sampleOps).summaries,
      ∀ covered, summary.covers covered = true → covered < 2 := by
  have hid : ((after (Session.step plainStrings) (.new sampleId) sampleOps).append .user
      "c".toList 4).1 = .ok 2 := by
    decide +kernel
  have hops : Along (Session.step plainStrings) Session.Absorbs (.new sampleId) sampleOps := by
    refine ⟨nofun, nofun, fun summary heq => ?_, nofun, trivial⟩
    cases heq
    decide +kernel
  have hrun := Session.ids_never_reused plainStrings (.inl ⟨sampleId, rfl⟩) sampleOps
  exact ⟨hid, (hrun.2.1 .user "c".toList 4 2 hid).2 ⟨nofun, hops⟩⟩

/-- A document whose summary is ahead of its next ordinal, and a summary that is absorbed ahead of
it: both times the next message gets an identifier that the summary covers. -/
theorem covered_id_handed_out :
    (Session.deserialize plainStrings
      ⟨.raw "\"s\"".toList, [], [⟨0, 4, .raw "\"x\"".toList, 1⟩], 0⟩).toOption.map
        (fun s => ((s.append .user "next".toList 2).1, s.summaries.any (·.covers 0))) =
      some (.ok 0, true) ∧
    ((after (Session.step plainStrings) (.new sampleId) [.absorb ⟨0, 4, "x".toList, 1⟩]).append
      .user "next".toList 2).1 = .ok 0 ∧
    (after (Session.step plainStrings) (.new sampleId)
      [.absorb ⟨0, 4, "x".toList, 1⟩]).summaries.any (·.covers 0) = true := by
  decide +kernel

end GtaClaw.Memory
