import GtaClaw.Goal.Files

/-!
# Saving, one file operation after the other

`Stores` says which store a disk holds: for every goal the file that encodes its
record, for every session the file that encodes its index, and no other `.json` file.
Temporary files do not matter.

A save that runs to its end does on disk what `GoalStore.save` says. One that stops has
done nothing, or has written the record and not the index, or everything.
-/

namespace GtaClaw.Goal

open Lib GtaClaw.Runtime GoalStore
open AList

/-- What is asked of the code outside: `serde_json` reads what it wrote, the digests of the
identifiers in use do not collide, and a directory is listed in some order. -/
structure FileConfig.Lawful {Text : Type} (config : FileConfig Text)
    (order : List FileName → List FileName) (known : Set String) : Prop where
  goal : ∀ e, ∃ text, config.codec.goalText e = .ok text ∧ config.codec.goalOf text = .ok e
  index : ∀ i, ∃ text, config.codec.indexText i = .ok text ∧
    config.codec.indexOf text = .ok ⟨i.schema, i.sessionId, .durable i.entries i.highWater, 0⟩
  digest : Set.InjOn config.digestOf known
  listed : ∀ names, (order names).Perm names

/-- The store's ceilings and sizes, as `GoalStore` has them. -/
def FileConfig.store {Text : Type} (config : FileConfig Text) : StoreConfig where
  budget := config.budget
  recordPathFor goalId := config.pathText (FileStore.recordPathFor config goalId)
  encodedLen record := (FileStore.encode config record).map config.codec.len

/-- The files that are not temporary. -/
def Disk.json {Text : Type} (d : Disk Text) (dir : Dir) (stem : String) : Option Text :=
  d.files.lookup ⟨dir, .json stem⟩

namespace FileStore

section Relation

variable {Text : Type} (config : FileConfig Text) (known : Set String)

/-- The disk holds the store, as far as the known identifiers go. -/
structure Stores (d : Disk Text) (store : GoalStore) : Prop where
  record : ∀ k ∈ known, d.json .goals (config.digestOf k)
    = (store.records.lookup k).bind fun record => (encode config record).toOption
  index : ∀ k ∈ known, d.json .sessions (config.digestOf k)
    = (store.indexes.lookup k).bind fun index => (encodeIndex config k index).toOption
  named : ∀ dir stem, (d.json dir stem).isSome → ∃ k ∈ known, stem = config.digestOf k
  goals : ∀ k record, store.records.lookup k = some record →
    k ∈ known ∧ record.sessionId.asStr ∈ known
  sessions : ∀ k index, store.indexes.lookup k = some index → k ∈ known

end Relation

/-- What every save keeps: records are where they belong and can be read back, and an index
lists goals of its session, each once. -/
structure Coherent (store : GoalStore) : Prop where
  wellFormed : ∀ k record, store.records.lookup k = some record → record.WellFormed
  keyed : ∀ k record, store.records.lookup k = some record → record.goalId.asStr = k
  named : ∀ k index, store.indexes.lookup k = some index → ∃ s : SessionId, s.asStr = k
  listed : ∀ (s : SessionId) (k : String), k ∈ (store.readIndex s).goalIds →
    ∃ record, store.records.lookup k = some record ∧ record.sessionId = s
  once : ∀ s : SessionId, (store.readIndex s).goalIds.Nodup

variable {index : SessionIndex}

section Lawful

variable {Text : Type} {config : FileConfig Text} {order : List FileName → List FileName}
  {known : Set String} {d d' : Disk Text} {store : GoalStore}

theorem Stores.of_json (h : Stores config known d store) (hsame : d'.json = d.json) :
    Stores config known d' store :=
  { h with
    record := hsame ▸ h.record
    index := hsame ▸ h.index
    named := hsame ▸ h.named }

variable {text : Text}

section

variable (hlaw : config.Lawful order known) {record : GoalRecord}
include hlaw

theorem encode_text (record : GoalRecord) : ∃ text, encode config record = .ok text ∧
    (record.WellFormed → decode config text = .ok record) := by
  obtain ⟨text, htext, hback⟩ := hlaw.goal (.ofRecord record)
  refine ⟨text, ?_, fun hr => ?_⟩
  · unfold encode
    rw [htext]
  · unfold decode
    rw [hback]
    exact toRecord_ofRecord hr

theorem encodeIndex_text (s : String) (index : SessionIndex) :
    ∃ text, encodeIndex config s index = .ok text ∧
      ∀ path, decodeIndex config path text = .ok ⟨index, sessionIndexSchemaVersion, s⟩ := by
  obtain ⟨text, htext, hback⟩ := hlaw.index
    ⟨sessionIndexSchemaVersion, s, index.goalIds, index.goalIdHighWater⟩
  refine ⟨text, ?_, fun path => ?_⟩
  · unfold encodeIndex
    rw [htext]
  · unfold decodeIndex
    rw [hback]
    rfl

/-- A record is written. -/
theorem Stores.insertRecord (h : Stores config known d store) (htext : encode config record = .ok text)
    (hgoal : record.goalId.asStr ∈ known) (hsession : record.sessionId.asStr ∈ known)
    (hnext : ∀ dir stem, d'.json dir stem
      = if dir = .goals ∧ stem = config.digestOf record.goalId.asStr then some text
        else d.json dir stem) :
    Stores config known d'
      { store with records := store.records.insert record.goalId.asStr record } where
  record k hknown := by
    rw [hnext]
    by_cases hk : k = record.goalId.asStr
    · subst hk
      rw [if_pos ⟨rfl, rfl⟩, lookup_insert]
      change some text = (encode config record).toOption
      rw [htext]
      rfl
    · rw [if_neg fun hstem => hk (hlaw.digest hknown hgoal hstem.2), lookup_insert_ne hk]
      exact h.record k hknown
  index k hknown := by
    rw [hnext]
    exact h.index k hknown
  named dir stem hsome := by
    rw [hnext] at hsome
    split_ifs at hsome with hstem
    · exact ⟨_, hgoal, hstem.2⟩
    · exact h.named dir stem hsome
  goals k other hlookup := by
    rcases Table.lookup_insert_eq_some hlookup with ⟨rfl, rfl⟩ | ⟨-, hold⟩
    · exact ⟨hgoal, hsession⟩
    · exact h.goals k other hold
  sessions := h.sessions

/-- An index is written. -/
theorem Stores.insertIndex (h : Stores config known d store) {s : String}
    (hs : s ∈ known) (htext : encodeIndex config s index = .ok text)
    (hnext : ∀ dir stem, d'.json dir stem
      = if dir = .sessions ∧ stem = config.digestOf s then some text else d.json dir stem) :
    Stores config known d' { store with indexes := store.indexes.insert s index } where
  record k hknown := by
    rw [hnext]
    exact h.record k hknown
  index k hknown := by
    rw [hnext]
    by_cases hk : k = s
    · subst hk
      rw [if_pos ⟨rfl, rfl⟩, lookup_insert]
      change some text = (encodeIndex config k index).toOption
      rw [htext]
      rfl
    · rw [if_neg fun hstem => hk (hlaw.digest hknown hs hstem.2), lookup_insert_ne hk]
      exact h.index k hknown
  named dir stem hsome := by
    rw [hnext] at hsome
    split_ifs at hsome with hstem
    · exact ⟨_, hs, hstem.2⟩
    · exact h.named dir stem hsome
  goals := h.goals
  sessions k other hlookup := by
    rcases Table.lookup_insert_eq_some hlookup with ⟨rfl, -⟩ | ⟨-, hold⟩
    · exact hs
    · exact h.sessions k other hold

end

/-! ## File operations -/

/-- Operations of a store with this configuration. -/
abbrev exec (config : FileConfig Text) (order : List FileName → List FileName) :
    Disk Text → (op : FileOp Text) → op.Answer × Disk Text :=
  Disk.exec config.codec.len order

theorem reads_call {op : FileOp Text} (hsame : (exec config order d op).2 = d) :
    Prog.Reads (exec config order) (FileM.call op).run d (.ok (exec config order d op).1) :=
  Prog.reads_call hsame Prog.reads_ret

theorem reads_check {α : Type} {result : Except StoreError α} :
    Prog.Reads (exec config order) (FileM.check result : FileM Text α).run d result :=
  Prog.reads_ret

/-- What a file operation leaves, when it is written: the file and no temporary one. -/
structure Wrote (d : Disk Text) (dir : Dir) (stem : String) (text : Text) (d' : Disk Text) :
    Prop where
  json : ∀ dir' stem', d'.json dir' stem'
    = if dir' = dir ∧ stem' = stem then some text else d.json dir' stem'
  pending : ∀ dir' process ordinal, d'.files.lookup ⟨dir', .pending process ordinal⟩ = none ∨
    d'.files.lookup ⟨dir', .pending process ordinal⟩
      = d.files.lookup ⟨dir', .pending process ordinal⟩

theorem json_ne_pending {dir dir' : Dir} {stem : String} {process ordinal : Nat} :
    (⟨dir, .json stem⟩ : Path) ≠ ⟨dir', .pending process ordinal⟩ := by simp

theorem wrote_rename (d : Disk Text) (dir : Dir) (stem : String) (text : Text)
    (process ordinal sequence : Nat) :
    Wrote d dir stem text
      ⟨((d.files.insert ⟨dir, .pending process ordinal⟩ text).erase
        ⟨dir, .pending process ordinal⟩).insert ⟨dir, .json stem⟩ text, d.process, sequence⟩ := by
  refine ⟨fun dir' stem' => ?_, fun dir' process' ordinal' => ?_⟩
  · by_cases hpath : dir' = dir ∧ stem' = stem
    · obtain ⟨rfl, rfl⟩ := hpath
      rw [if_pos ⟨rfl, rfl⟩]
      exact lookup_insert _
    have hne : (⟨dir', .json stem'⟩ : Path) ≠ ⟨dir, .json stem⟩ := by
      intro heq
      cases heq
      exact hpath ⟨rfl, rfl⟩
    rw [if_neg hpath]
    exact ((lookup_insert_ne hne).trans (lookup_erase_ne json_ne_pending)).trans
      (lookup_insert_ne json_ne_pending)
  · by_cases hpath : (⟨dir', .pending process' ordinal'⟩ : Path) = ⟨dir, .pending process ordinal⟩
    · left
      rw [hpath]
      exact (lookup_insert_ne json_ne_pending.symm).trans (lookup_erase _ _)
    right
    exact ((lookup_insert_ne json_ne_pending.symm).trans (lookup_erase_ne hpath)).trans
      (lookup_insert_ne hpath)

variable {inv : Disk Text → Prop}

/-- A file is there as it was until it is there as it is written. -/
theorem throughout_writeAtomically {dir : Dir} {stem : String}
    (hbefore : ∀ t, t.json = d.json → inv t) (hafter : ∀ t, Wrote d dir stem text t → inv t) :
    (writeAtomically ⟨dir, .json stem⟩ text).run.Throughout (exec config order) inv
      (fun result t => result = .ok () ∧ Wrote d dir stem text t) d := by
  let temporary : Path := ⟨dir, .pending d.process d.sequence⟩
  let created : Disk Text :=
    ⟨d.files.insert temporary text, d.process, (d.sequence + 1) % (u64Max + 1)⟩
  have hcreated : created.json = d.json := funext₂ fun _ _ => lookup_insert_ne json_ne_pending
  have hrename : exec config order created (.rename temporary ⟨dir, .json stem⟩)
      = ((), ⟨(created.files.erase temporary).insert ⟨dir, .json stem⟩ text, created.process,
          created.sequence⟩) := by
    unfold exec Disk.exec
    dsimp only
    rw [show created.files.lookup temporary = some text from lookup_insert _]
  have hwrote := wrote_rename d dir stem text d.process d.sequence created.sequence
  refine .call (hbefore d rfl) (.call (hbefore _ rfl) (.call (hbefore created hcreated) ?_))
  change Prog.Throughout (exec config order) inv _ (.ret (Except.ok ()))
    (exec config order created (.rename temporary ⟨dir, .json stem⟩)).2
  rw [hrename]
  exact .ret (hafter _ hwrote) ⟨rfl, hwrote⟩

/-! ## What is read back -/

section

variable (hlaw : config.Lawful order known) (h : Stores config known d store) (hs : Coherent store)
include hlaw h

theorem Stores.record_bytes {k : String} {record : GoalRecord}
    (hlookup : store.records.lookup k = some record) :
    ∃ text, d.json .goals (config.digestOf k) = some text ∧
      store.recordBytes config.store k = config.codec.len text ∧
      (record.WellFormed → decode config text = .ok record) := by
  obtain ⟨text, htext, hback⟩ := encode_text hlaw record
  refine ⟨text, ?_, ?_, hback⟩
  · rw [h.record k (h.goals k record hlookup).1, hlookup, Option.bind_some, htext]
    rfl
  · unfold recordBytes FileConfig.store
    rw [hlookup]
    dsimp only
    rw [htext]
    rfl

theorem Stores.index_text {s : String} (hlookup : store.indexes.lookup s = some index) :
    ∃ text, d.json .sessions (config.digestOf s) = some text ∧
      ∀ path, decodeIndex config path text = .ok ⟨index, sessionIndexSchemaVersion, s⟩ := by
  obtain ⟨text, htext, hback⟩ := encodeIndex_text hlaw s index
  refine ⟨text, ?_, hback⟩
  rw [h.index s (h.sessions s index hlookup), hlookup, Option.bind_some, htext]
  rfl

theorem reads_index {s : SessionId} (hknown : s.asStr ∈ known) :
    Prog.Reads (exec config order) (readIndex config s).run d
      (.ok ⟨store.readIndex s, sessionIndexSchemaVersion, s.asStr⟩) := by
  refine Prog.Reads.bindOk (reads_call rfl) ?_
  rw [show (exec config order d (.read (indexPathFor config s.asStr))).1
    = d.json .sessions (config.digestOf s.asStr) from rfl]
  unfold GoalStore.readIndex
  cases hlookup : store.indexes.lookup s.asStr with
  | none =>
    have hnone : d.json .sessions (config.digestOf s.asStr) = none := by
      rw [h.index _ hknown, hlookup]
      rfl
    rw [hnone]
    exact Prog.reads_ret
  | some index =>
    obtain ⟨text, hfile, hback⟩ := h.index_text hlaw hlookup
    rw [hfile]
    dsimp only
    rw [hback]
    exact reads_check

theorem reads_sizes : ∀ goalIds bytes,
    (∀ k ∈ goalIds, (store.records.lookup k).isSome) →
    Prog.Reads (exec config order) (sizesOf config goalIds bytes).run d
      (.ok (goalIds.foldl
        (fun bytes k => saturatingAdd bytes (store.recordBytes config.store k)) bytes))
  | [], _, _ => Prog.reads_ret
  | k :: rest, bytes, hall => by
    refine Prog.Reads.bindOk (reads_call rfl) ?_
    obtain ⟨record, hlookup⟩ := Option.isSome_iff_exists.mp (hall k List.mem_cons_self)
    obtain ⟨text, hfile, hbytes, -⟩ := h.record_bytes hlaw hlookup
    rw [show (exec config order d (.metadata (recordPathFor config k))).1
      = (d.json .goals (config.digestOf k)).map config.codec.len from rfl, hfile,
      List.foldl_cons, hbytes]
    exact reads_sizes rest _ (List.forall_mem_cons.mp hall).2

include hs

theorem reads_record {k : String} (hknown : k ∈ known) :
    Prog.Reads (exec config order) (readRecordSized config (recordPathFor config k)).run d
      (.ok ((store.records.lookup k).map fun record =>
        (record, store.recordBytes config.store k))) := by
  refine Prog.Reads.bindOk (reads_call rfl) ?_
  rw [show (exec config order d (.read (recordPathFor config k))).1
    = d.json .goals (config.digestOf k) from rfl]
  cases hlookup : store.records.lookup k with
  | none =>
    have hnone : d.json .goals (config.digestOf k) = none := by
      rw [h.record k hknown, hlookup]
      rfl
    rw [hnone]
    exact Prog.reads_ret
  | some record =>
    obtain ⟨text, hfile, hbytes, hback⟩ := h.record_bytes hlaw hlookup
    rw [hfile]
    dsimp only
    rw [hback (hs.wellFormed k record hlookup), hbytes]
    exact Prog.reads_ret

theorem reads_usage (s : SessionId) :
    Prog.Reads (exec config order)
      (usageOfIndex config ⟨store.readIndex s, sessionIndexSchemaVersion, s.asStr⟩).run d
      (.ok (store.usageOfIndex config.store (store.readIndex s))) := by
  have hall : ∀ k ∈ (store.readIndex s).goalIds, (store.records.lookup k).isSome := by
    intro k hk
    obtain ⟨record, hlookup, -⟩ := hs.listed s k hk
    rw [hlookup]
    rfl
  exact Prog.Reads.bindOk (reads_sizes hlaw h _ 0 hall) Prog.reads_ret

end

/-! ## What a save leaves -/

/-- How far a save has come. -/
inductive Partway (store : GoalStore) (record : GoalRecord) : GoalStore → Prop where
  | nothing : Partway store record store
  /-- The record is there, and the index is as it was. -/
  | recorded : Partway store record
      { store with records := store.records.insert record.goalId.asStr record }
  | saved : Partway store record (store.write record)

/-- The record of a goal as a save finds it, and its size. -/
def existingOf (config : FileConfig Text) (store : GoalStore) (goalId : GoalId) :
    Option (GoalRecord × Nat) :=
  (store.records.lookup goalId.asStr).map fun stored =>
    (stored, store.recordBytes config.store goalId.asStr)

/-- The checks of a save are those of `GoalStore.save`. -/
theorem save_eq (store : GoalStore) (record : GoalRecord) (text : Text)
    (htext : encode config record = .ok text) :
    store.save config.store record =
      match checkRevision record (existingOf config store record.goalId)
          (store.adoptsIdenticalOrphan record) with
      | .error e => .error e
      | .ok () =>
        match checkBudget config
            (store.usageOfIndex config.store (store.readIndex record.sessionId))
            (existingOf config store record.goalId) (config.codec.len text)
            (store.isNew record) with
        | .error e => .error e
        | .ok () => .ok (store.write record) := by
  have hlen : config.store.encodedLen record = .ok (config.codec.len text) := by
    change (encode config record).map config.codec.len = _
    rw [htext]
    rfl
  have hrevision : checkRevision record (existingOf config store record.goalId)
      (store.adoptsIdenticalOrphan record)
        = if !store.adoptsIdenticalOrphan record
              && record.revision ≠ store.expectedRevision record.goalId then
            .error (.conflict (store.expectedRevision record.goalId) record.revision)
          else .ok () := by
    unfold existingOf GoalStore.expectedRevision GoalStore.load
    cases store.records.lookup record.goalId.asStr with
    | none | some stored => rfl
  have hbytes : (existingOf config store record.goalId).elim 0 (·.2)
      = store.recordBytes config.store record.goalId.asStr := by
    unfold existingOf GoalStore.recordBytes
    cases store.records.lookup record.goalId.asStr with
    | none | some stored => rfl
  unfold GoalStore.save checkBudget
  rw [hlen, hrevision, hbytes]
  dsimp only
  rw [show config.store.budget = config.budget from rfl]
  split
  · rfl
  generalize config.budget.admitRecord _ _ _ = admitted
  cases admitted with
  | error e | ok usage => rfl

section

variable (hlaw : config.Lawful order known) (h : Stores config known d store) {record : GoalRecord}
include hlaw h

theorem throughout_writeIndex {s : String} (hknown : s ∈ known) (index : SessionIndex)
    (hbefore : ∀ t, Stores config known t store → inv t)
    (hafter : ∀ t, Stores config known t { store with indexes := store.indexes.insert s index } →
      inv t) :
    (writeIndex config s index).run.Throughout (exec config order) inv
      (fun result t => result = .ok () ∧
        Stores config known t { store with indexes := store.indexes.insert s index } ∧
        ∃ text, Wrote d .sessions (config.digestOf s) text t) d := by
  obtain ⟨text, htext, -⟩ := encodeIndex_text hlaw s index
  have hstores : ∀ t, Wrote d .sessions (config.digestOf s) text t →
      Stores config known t { store with indexes := store.indexes.insert s index } :=
    fun t ht => h.insertIndex hlaw hknown htext ht.json
  unfold writeIndex
  rw [htext]
  refine reads_check.thenOk (.mono (fun _ => id) ?_ (throughout_writeAtomically
    (fun t ht => hbefore t (h.of_json ht)) fun t ht => hafter t (hstores t ht)))
  rintro result t - ⟨rfl, hwrote⟩
  exact ⟨rfl, hstores t hwrote, text, hwrote⟩

/-- The index is written, if the goal is new; the record is there already. -/
theorem throughout_publishIndex {before : GoalStore} (hsession : record.sessionId.asStr ∈ known)
    (hbefore : ∀ t, Stores config known t store → inv t)
    (hafter : ∀ t, Stores config known t (before.write record) → inv t) (hwrite : before.write record =
      if before.isNew record then
        ⟨store.records, store.indexes.insert record.sessionId.asStr
          ((before.readIndex record.sessionId).push record)⟩
      else store) :
    (publishIndex config record ⟨before.readIndex record.sessionId, sessionIndexSchemaVersion,
      record.sessionId.asStr⟩ (before.isNew record)).run.Throughout (exec config order) inv
      (fun result t => result = .ok () ∧ Stores config known t (before.write record)) d := by
  cases hnew : before.isNew record with
  | true =>
    rw [hnew] at hwrite
    rw [hwrite] at hafter ⊢
    refine .mono (fun _ => id) ?_ (throughout_writeIndex hlaw h hsession _ hbefore hafter)
    rintro result t - ⟨rfl, hstores, -⟩
    exact ⟨rfl, hstores⟩
  | false =>
    rw [hnew] at hwrite
    rw [hwrite]
    exact .ret (hbefore d h) ⟨rfl, h⟩

variable (hgoal : record.goalId.asStr ∈ known) (hsession : record.sessionId.asStr ∈ known)
include hgoal hsession

theorem throughout_publish (htext : encode config record = .ok text) :
    (publishRecord config record text (store.adoptsIdenticalOrphan record) >>= fun _ =>
      publishIndex config record
        ⟨store.readIndex record.sessionId, sessionIndexSchemaVersion, record.sessionId.asStr⟩
        (store.isNew record)).run.Throughout (exec config order)
      (fun t => ∃ after, Stores config known t after ∧ Partway store record after)
      (fun result t => result = .ok () ∧ Stores config known t (store.write record)) d := by
  cases hadopts : store.adoptsIdenticalOrphan record with
  | true =>
    -- the record was there without its index
    refine Prog.Reads.thenOk Prog.reads_ret (throughout_publishIndex hlaw h hsession
      (fun t ht => ⟨store, ht, .nothing⟩) (fun t ht => ⟨_, ht, .saved⟩) ?_)
    unfold write
    rw [hadopts, if_pos rfl]
    split
    · rfl
    · rfl
  | false =>
    have hrecorded : ∀ t, Wrote d .goals (config.digestOf record.goalId.asStr) text t →
        Stores config known t
          { store with records := store.records.insert record.goalId.asStr record } :=
      fun t ht => h.insertRecord hlaw htext hgoal hsession ht.json
    refine Prog.Throughout.bindDone (throughout_writeAtomically (fun t ht => ⟨store, h.of_json ht,
      .nothing⟩) fun t ht => ⟨_, hrecorded t ht, .recorded⟩) fun t _ hwrote => ?_
    refine throughout_publishIndex hlaw (hrecorded t hwrote) hsession (fun t ht => ⟨_, ht, .recorded⟩)
      (fun t ht => ⟨_, ht, .saved⟩) ?_
    unfold write
    rw [hadopts, if_neg Bool.false_ne_true]
    split
    · rfl
    · rfl

theorem throughout_saveOver (hs : Coherent store) (htext : encode config record = .ok text) :
    (saveOver config record text (existingOf config store record.goalId)
      ⟨store.readIndex record.sessionId, sessionIndexSchemaVersion,
        record.sessionId.asStr⟩).run.Throughout (exec config order)
      (fun t => ∃ after, Stores config known t after ∧ Partway store record after)
      (fun result t => match store.save config.store record with
        | .ok after => result = .ok () ∧ Stores config known t after
        | .error e => result = .error e ∧ t = d) d := by
  have hstart : ∃ after, Stores config known d after ∧ Partway store record after :=
    ⟨store, h, .nothing⟩
  have hadopts : (store.isNew record && (existingOf config store record.goalId).any (·.1 = record))
      = store.adoptsIdenticalOrphan record := by
    unfold adoptsIdenticalOrphan existingOf load
    cases store.records.lookup record.goalId.asStr with
    | none => rfl
    | some stored => simp
  rw [save_eq store record text htext]
  unfold saveOver
  dsimp only
  rw [show decide (record.goalId.asStr ∉ (store.readIndex record.sessionId).goalIds)
    = store.isNew record from rfl, hadopts]
  cases checkRevision record (existingOf config store record.goalId)
      (store.adoptsIdenticalOrphan record) with
  | error e => exact reads_check.bindError.throughout hstart ⟨rfl, rfl⟩
  | ok =>
    refine reads_check.thenOk ((reads_usage hlaw h hs record.sessionId).thenOk ?_)
    cases checkBudget config (store.usageOfIndex config.store (store.readIndex record.sessionId))
        (existingOf config store record.goalId) (config.codec.len text) (store.isNew record) with
    | error e => exact reads_check.bindError.throughout hstart ⟨rfl, rfl⟩
    | ok => exact reads_check.thenOk (throughout_publish hlaw h hgoal hsession htext)

/-- **A save on disk** does what `GoalStore.save` says, and leaves nothing worse than a
record without its index when it stops. -/
theorem throughout_save (hs : Coherent store) :
    (save config record).run.Throughout (exec config order)
      (fun t => ∃ after, Stores config known t after ∧ Partway store record after)
      (fun result t => match store.save config.store record with
        | .ok after => result = .ok () ∧ Stores config known t after
        | .error e => result = .error e ∧ t = d) d := by
  obtain ⟨text, htext, -⟩ := encode_text hlaw record
  unfold save
  rw [htext]
  exact reads_check.thenOk ((reads_record hlaw h hs hgoal).thenOk
    ((reads_index hlaw h hsession).thenOk (throughout_saveOver hlaw h hgoal hsession hs htext)))

end

end Lawful

/-! ## What stays true of the store -/

/-- Nothing that an index lists is lost or moved. -/
def Grows (before after : GoalStore) : Prop :=
  ∀ s : SessionId, (before.readIndex s).goalIds <+: (after.readIndex s).goalIds

theorem Grows.trans {a b c : GoalStore} (h : Grows a b) (h' : Grows b c) : Grows a c :=
  fun s => (h s).trans (h' s)

section Coherence

variable {store after : GoalStore} {record : GoalRecord} (hs : Coherent store)
include hs

theorem Coherent.insertRecord (hr : record.WellFormed)
    (hkeeps : ∀ stored, store.load record.goalId = some stored →
      stored.sessionId = record.sessionId) :
    Coherent { store with records := store.records.insert record.goalId.asStr record } where
  wellFormed k r hlookup := by
    rcases Table.lookup_insert_eq_some hlookup with ⟨-, rfl⟩ | ⟨-, hold⟩
    · exact hr
    · exact hs.wellFormed k r hold
  keyed k r hlookup := by
    rcases Table.lookup_insert_eq_some hlookup with ⟨rfl, rfl⟩ | ⟨-, hold⟩
    · rfl
    · exact hs.keyed k r hold
  named := hs.named
  listed s k hk := by
    obtain ⟨r, hlookup, rfl⟩ := hs.listed s k hk
    by_cases heq : k = record.goalId.asStr
    · subst heq
      exact ⟨record, lookup_insert _, (hkeeps r hlookup).symm⟩
    · exact ⟨r, (lookup_insert_ne heq).trans hlookup, rfl⟩
  once := hs.once

theorem Coherent.insertIndex {s : SessionId}
    (hlisted : ∀ k ∈ index.goalIds, ∃ r, store.records.lookup k = some r ∧ r.sessionId = s)
    (honce : index.goalIds.Nodup) :
    Coherent { store with indexes := store.indexes.insert s.asStr index } where
  wellFormed := hs.wellFormed
  keyed := hs.keyed
  named k i hlookup := by
    rcases Table.lookup_insert_eq_some hlookup with ⟨rfl, -⟩ | ⟨-, hold⟩
    · exact ⟨s, rfl⟩
    · exact hs.named k i hold
  listed s' k hk := by
    rw [readIndex_insert] at hk
    split_ifs at hk with heq
    · rw [heq]
      exact hlisted k hk
    · exact hs.listed s' k hk
  once s' := by
    rw [readIndex_insert]
    split
    · exact honce
    · exact hs.once s'

/-- **However far a save has come**, the store is coherent and has lost nothing. -/
theorem Coherent.partway (hr : record.WellFormed)
    (hkeeps : ∀ stored, store.load record.goalId = some stored →
      stored.sessionId = record.sessionId) (h : Partway store record after) :
    Coherent after ∧ Grows store after := by
  cases h with
  | nothing => exact ⟨hs, fun _ => List.prefix_rfl⟩
  | recorded => exact ⟨hs.insertRecord hr hkeeps, fun _ => List.prefix_rfl⟩
  | saved =>
    refine ⟨?_, fun s => ?_⟩
    · -- the record is there, and the index is as it was
      have hrecords : Coherent ⟨(store.write record).records, store.indexes⟩ ∧
          (store.write record).records.lookup record.goalId.asStr = some record := by
        unfold write
        cases hadopts : store.adoptsIdenticalOrphan record with
        | true => exact ⟨hs, of_decide_eq_true ((Bool.and_eq_true _ _).mp hadopts).2⟩
        | false => exact ⟨hs.insertRecord hr hkeeps, lookup_insert _⟩
      unfold write at hrecords ⊢
      cases hnew : store.isNew record with
      | true =>
        refine hrecords.1.insertIndex (fun k hk => ?_) ?_
        · rcases List.mem_append.mp hk with hold | hlast
          · exact hrecords.1.listed _ k hold
          · rw [List.mem_singleton.mp hlast]
            exact ⟨record, hrecords.2, rfl⟩
        · refine List.nodup_append.mpr ⟨hrecords.1.once _, List.nodup_singleton _, ?_⟩
          intro k hk k' hk' heq
          rw [List.mem_singleton.mp hk'] at heq
          exact of_decide_eq_true hnew (heq ▸ hk)
      | false => exact hrecords.1
    · rw [readIndex_write]
      split
      · exact List.prefix_append _ _
      · exact List.prefix_rfl

end Coherence

end FileStore

end GtaClaw.Goal
