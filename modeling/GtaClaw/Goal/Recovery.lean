import GtaClaw.Goal.Durable

/-!
# Opening the store

What `recover` makes of a coherent store. It finds no dangling entry, so it prunes
nothing; it appends the records that an index does not list, and raises the high-water
mark to the ordinals that it sees. A session for which this changes nothing is
`Settled`. Repairing a session settles it and leaves the others as they are, so
afterwards all are settled, and opening the store again only reads.
-/

namespace GtaClaw.Goal.FileStore

open Lib GtaClaw.Runtime FileName List AList

/-! ## Ordinals -/

theorem le_foldl_max : ∀ (ns : List Nat) (start : Nat),
    start ≤ ns.foldl max start ∧ ∀ n ∈ ns, n ≤ ns.foldl max start
  | [], start => ⟨Nat.le_refl start, fun _ h => absurd h not_mem_nil⟩
  | m :: ns, start => by
    obtain ⟨hstart, hall⟩ := le_foldl_max ns (max start m)
    refine ⟨Nat.le_trans (by omega) hstart, fun n hn => ?_⟩
    rcases mem_cons.mp hn with rfl | hn
    · exact (Nat.le_max_right _ _).trans hstart
    · exact hall n hn

theorem foldl_max_eq : ∀ {ns : List Nat} {start : Nat}, (∀ n ∈ ns, n ≤ start) →
    ns.foldl max start = start
  | [], _, _ => rfl
  | m :: ns, start, h => by
    rw [foldl_cons, Nat.max_eq_left (h m mem_cons_self)]
    exact foldl_max_eq (forall_mem_cons.mp h).2

/-- The mark is at or above every ordinal of the goals. -/
def Covers (s : SessionId) (index : SessionIndex) : Prop :=
  ∀ k ∈ index.goalIds, ∀ n, generatedGoalOrdinal s.asStr k = some n → n ≤ index.goalIdHighWater

theorem Covers.highWaterOf {s : SessionId} {index : SessionIndex} (h : Covers s index) :
    highWaterOf s.asStr index.goalIdHighWater index.goalIds = index.goalIdHighWater := by
  refine foldl_max_eq fun n hn => ?_
  obtain ⟨k, hk, hn⟩ := mem_filterMap.mp hn
  exact h k hk n hn

/-! ## One index -/

section Index

variable {records : Table String GoalRecord} {s : SessionId} {index : SessionIndex}

theorem mem_orphansOf {session : String} {goalIds : List String} {record : GoalRecord} :
    record ∈ orphansOf records session goalIds ↔ (∃ k, records.lookup k = some record) ∧
      record.sessionId.asStr = session ∧ record.goalId.asStr ∉ goalIds := by
  unfold orphansOf
  rw [(perm_insertionSort _ _).mem_iff, mem_filter, Table.mem_values, Bool.and_eq_true,
    decide_eq_true_iff, decide_eq_true_iff]

/-- The entries of an index are goals of its session, each once. -/
structure Entries (records : Table String GoalRecord) (s : SessionId) (goalIds : List String) :
    Prop where
  listed : ∀ k ∈ goalIds, ∃ record, records.lookup k = some record ∧ record.sessionId = s
  once : goalIds.Nodup

/-- Nothing is pruned, and the orphans are appended. -/
theorem repairIndex_eq (h : Entries records s index.goalIds) :
    repairIndex records s.asStr index =
      let goalIds := index.goalIds ++
        (orphansOf records s.asStr index.goalIds).map (·.goalId.asStr)
      ⟨⟨goalIds, highWaterOf s.asStr (highWaterOf s.asStr index.goalIdHighWater index.goalIds)
        goalIds⟩, 0, (orphansOf records s.asStr index.goalIds).length⟩ := by
  have hkept : index.goalIds.filter (fun k => (records.lookup k).isSome) = index.goalIds := by
    refine filter_eq_self.mpr fun k hk => ?_
    obtain ⟨record, hlookup, -⟩ := h.listed k hk
    rw [hlookup]
    rfl
  unfold repairIndex
  dsimp only
  rw [hkept, Nat.sub_self]

theorem repairIndex_unchanged (h : Entries records s index.goalIds)
    (hsame : (repairIndex records s.asStr index).changed index = false) :
    repairIndex records s.asStr index = ⟨index, 0, 0⟩ := by
  unfold Repair.changed at hsame
  rw [Bool.or_eq_false_iff, Bool.or_eq_false_iff] at hsame
  obtain ⟨⟨-, hadopted⟩, hmark⟩ := hsame
  rw [repairIndex_eq h] at hadopted hmark ⊢
  have hnone : orphansOf records s.asStr index.goalIds = [] :=
    length_eq_zero_iff.mp (Nat.eq_zero_of_not_pos (of_decide_eq_false hadopted))
  rw [hnone] at hmark ⊢
  simp only [map_nil, append_nil, length_nil] at hmark ⊢
  rw [not_not.mp (of_decide_eq_false hmark)]

variable (hkeyed : ∀ k record, records.lookup k = some record → record.goalId.asStr = k)
include hkeyed

theorem Entries.repaired (h : Entries records s index.goalIds) :
    Entries records s (repairIndex records s.asStr index).index.goalIds := by
  rw [repairIndex_eq h]
  have hsub : ((orphansOf records s.asStr index.goalIds).map (·.goalId.asStr)).Nodup := by
    refine ((perm_insertionSort _ _).map _).nodup_iff.mpr ?_
    refine List.Nodup.sublist (filter_sublist.map _) ?_
    rw [Table.map_values_eq_keys hkeyed]
    exact records.keys_nodup
  refine ⟨fun k hk => ?_, nodup_append.mpr ⟨h.once, hsub, fun k hk k' hk' heq => ?_⟩⟩
  · rcases mem_append.mp hk with hold | hnew
    · exact h.listed k hold
    obtain ⟨record, hrecord, rfl⟩ := mem_map.mp hnew
    obtain ⟨⟨k, hlookup⟩, hsession, -⟩ := mem_orphansOf.mp hrecord
    rw [← hkeyed k record hlookup] at hlookup
    exact ⟨record, hlookup, Identifier.ext hsession⟩
  · obtain ⟨record, hrecord, rfl⟩ := mem_map.mp hk'
    exact (mem_orphansOf.mp hrecord).2.2 (heq ▸ hk)

end Index

/-! ## The store, session by session -/

/-- What repairing a session makes of the store. -/
def repairStore (records : Table String GoalRecord) (store : GoalStore) (s : SessionId) :
    GoalStore :=
  let repair := repairIndex records s.asStr (store.readIndex s)
  if repair.changed (store.readIndex s) then
    { store with indexes := store.indexes.insert s.asStr repair.index }
  else store

theorem repairStore_records (records : Table String GoalRecord) (store : GoalStore)
    (s : SessionId) : (repairStore records store s).records = store.records := by
  unfold repairStore
  dsimp only
  split
  · rfl
  · rfl

/-- The index lists every goal of the session, and its mark is high enough. -/
structure Settled (store : GoalStore) (s : SessionId) : Prop where
  complete : ∀ k record, store.records.lookup k = some record → record.sessionId = s →
    k ∈ (store.readIndex s).goalIds
  covers : Covers s (store.readIndex s)

section Repair

variable {records : Table String GoalRecord} {store : GoalStore} {s : SessionId}
  (hs : Coherent store) (hrecords : ∀ k, records.lookup k = store.records.lookup k)
include hs hrecords

theorem Coherent.entries (s : SessionId) : Entries records s (store.readIndex s).goalIds where
  listed k hk := by
    rw [hrecords]
    exact hs.listed s k hk
  once := hs.once s

theorem Coherent.keyed_of (k : String) (record : GoalRecord)
    (hlookup : records.lookup k = some record) : record.goalId.asStr = k :=
  hs.keyed k record (hrecords k ▸ hlookup)

theorem readIndex_repairStore (s s' : SessionId) :
    (repairStore records store s).readIndex s'
      = if s' = s then (repairIndex records s.asStr (store.readIndex s)).index
        else store.readIndex s' := by
  unfold repairStore
  dsimp only
  split
  · exact GoalStore.readIndex_insert _ _ _ _ _
  rename_i hsame
  rw [repairIndex_unchanged (hs.entries hrecords s) (Bool.eq_false_iff.mpr hsame)]
  split_ifs with heq
  · rw [heq]
  · rfl

theorem Settled.repairIndex_eq (h : Settled store s) :
    repairIndex records s.asStr (store.readIndex s) = ⟨store.readIndex s, 0, 0⟩ := by
  suffices hnone : orphansOf records s.asStr (store.readIndex s).goalIds = [] by
    rw [FileStore.repairIndex_eq (hs.entries hrecords s), hnone]
    simp only [map_nil, append_nil, length_nil]
    rw [h.covers.highWaterOf, h.covers.highWaterOf]
  refine eq_nil_iff_forall_not_mem.mpr fun record hrecord => ?_
  obtain ⟨⟨k, hlookup⟩, hsession, hnot⟩ := mem_orphansOf.mp hrecord
  refine hnot ?_
  rw [hs.keyed_of hrecords k record hlookup]
  exact h.complete k record (hrecords k ▸ hlookup) (Identifier.ext hsession)

theorem settled_repairStore (s s' : SessionId) (h : s' = s ∨ Settled store s') :
    Settled (repairStore records store s) s' := by
  have hindex := readIndex_repairStore hs hrecords s s'
  have hsame := repairStore_records records store s
  by_cases heq : s' = s
  · subst heq
    rw [if_pos rfl] at hindex
    refine ⟨fun k record hlookup hsession => ?_, ?_⟩
    · rw [hsame, ← hrecords] at hlookup
      have hkey := hs.keyed_of hrecords k record hlookup
      rw [hindex, repairIndex_eq (hs.entries hrecords s')]
      by_cases hk : k ∈ (store.readIndex s').goalIds
      · exact mem_append_left _ hk
      refine mem_append_right _ (mem_map.mpr ⟨record, mem_orphansOf.mpr ?_, hkey⟩)
      rw [hkey, hsession]
      exact ⟨⟨k, hlookup⟩, rfl, hk⟩
    · rw [hindex]
      exact fun k hk _ hn => (le_foldl_max _ _).2 _ (mem_filterMap.mpr ⟨k, hk, hn⟩)
  · rw [if_neg heq] at hindex
    have hold := h.resolve_left heq
    refine ⟨fun k record hlookup hsession => ?_, ?_⟩
    · rw [hindex]
      exact hold.complete k record (hsame ▸ hlookup) hsession
    · rw [hindex]
      exact hold.covers

theorem Coherent.repairStore (s : SessionId) : Coherent (repairStore records store s) := by
  unfold FileStore.repairStore
  dsimp only
  split
  · have hentries := (hs.entries hrecords s).repaired (hs.keyed_of hrecords)
    refine hs.insertIndex (fun k hk => ?_) hentries.once
    rw [← hrecords]
    exact hentries.listed k hk
  · exact hs

theorem grows_repairStore (s : SessionId) : Grows store (FileStore.repairStore records store s) := by
  intro s'
  rw [readIndex_repairStore hs hrecords]
  split_ifs with heq
  · rw [heq, repairIndex_eq (hs.entries hrecords s)]
    exact prefix_append _ _
  · exact prefix_rfl

end Repair

/-- What repairing sessions makes of the store. -/
structure Repaired (sessions : List String) (before after : GoalStore) : Prop where
  coherent : Coherent after
  grows : Grows before after
  records : after.records = before.records
  settled : ∀ s : SessionId, s.asStr ∈ sessions ∨ Settled before s → Settled after s

theorem Repaired.refl {store : GoalStore} (hs : Coherent store) : Repaired [] store store :=
  ⟨hs, fun _ => prefix_rfl, rfl, fun _ hor => hor.resolve_left not_mem_nil⟩

section

variable {sessions sessions' : List String} {before store after : GoalStore}

theorem Repaired.trans (h : Repaired sessions before store) (h' : Repaired sessions' store after) :
    Repaired (sessions ++ sessions') before after := by
  refine ⟨h'.coherent, h.grows.trans h'.grows, h'.records.trans h.records, fun s hor => ?_⟩
  rw [mem_append, or_right_comm] at hor
  exact h'.settled s (hor.symm.imp_right (h.settled s))

theorem Repaired.weaken (h : Repaired sessions before after) : Repaired [] before after :=
  { h with settled := fun s hor => h.settled s (.inr (hor.resolve_left not_mem_nil)) }

end

/-! ## Programs -/

def Tidy {Text : Type} (d : Disk Text) : Prop :=
  ∀ dir process ordinal, d.files.lookup ⟨dir, .pending process ordinal⟩ = none

section Programs

variable {Text : Type} {config : FileConfig Text} {order : List FileName → List FileName}
  {known : Set String} {d : Disk Text} {store : GoalStore} {records : Table String GoalRecord}
  (hlaw : config.Lawful order known) (h : Stores config known d store) (hs : Coherent store)

section

include hlaw h

theorem throughout_repairSession {inv : Disk Text → Prop} {s : SessionId} (hknown : s.asStr ∈ known)
    (hbefore : ∀ t, Stores config known t store → inv t)
    (hafter : ∀ t, Stores config known t (repairStore records store s) → inv t) :
    (repairSession config records s.asStr).run.Throughout (exec config order) inv
      (fun result t => (∃ counts, result = .ok counts) ∧
        Stores config known t (repairStore records store s) ∧ (Tidy d → Tidy t)) d := by
  unfold repairSession
  rw [Identifier.new_asStr]
  refine reads_check.thenOk ((reads_index hlaw h hknown).thenOk ?_)
  unfold repairStore at hafter ⊢
  dsimp only at hafter ⊢
  rw [decide_eq_false (not_not.mpr rfl)]
  cases hchanged : (repairIndex records s.asStr (store.readIndex s)).changed (store.readIndex s) with
  | true =>
    rw [hchanged] at hafter
    refine (throughout_writeIndex hlaw h hknown _ hbefore hafter).bindDone ?_
    rintro t ht ⟨hstores, text, hwrote⟩
    refine .ret ht ⟨⟨_, rfl⟩, hstores, fun htidy dir process ordinal => ?_⟩
    exact (hwrote.pending dir process ordinal).elim id fun hsame =>
      hsame.trans (htidy dir process ordinal)
  | false => exact .ret (hbefore d h) ⟨⟨_, rfl⟩, h, id⟩

variable (hrecords : ∀ k, records.lookup k = store.records.lookup k)
include hs hrecords

theorem reads_repairSession {s : SessionId} (hknown : s.asStr ∈ known) (hsettled : Settled store s) :
    Prog.Reads (exec config order) (repairSession config records s.asStr).run d (.ok (0, 0)) := by
  unfold repairSession
  rw [Identifier.new_asStr]
  refine reads_check.bindOk ((reads_index hlaw h hknown).bindOk ?_)
  dsimp only
  rw [hsettled.repairIndex_eq hs hrecords]
  have hsame : (Repair.mk (store.readIndex s) 0 0).changed (store.readIndex s) = false := by
    unfold Repair.changed
    rw [decide_eq_false (not_not.mpr rfl)]
    rfl
  rw [hsame]
  exact Prog.reads_ret

end

variable {inv : Disk Text → Prop}

theorem throughout_repairSessions (hlaw : config.Lawful order known) :
    ∀ (sessions : List String) (store : GoalStore) (d : Disk Text) (report : RecoveryReport),
    Stores config known d store → Coherent store → (∀ k, records.lookup k = store.records.lookup k) →
    (∀ x ∈ sessions, x ∈ known ∧ ∃ s : SessionId, s.asStr = x) →
    (∀ t after, Stores config known t after → Repaired [] store after → inv t) →
    (repairSessions config records sessions report).run.Throughout (exec config order) inv
      (fun result t => ∃ report' after, result = .ok report' ∧ Stores config known t after ∧
        Repaired sessions store after ∧ (Tidy d → Tidy t)) d
  | [], store, d, report, h, hs, _, _, hinv => by
    exact .ret (hinv d store h (.refl hs)) ⟨report, store, rfl, h, .refl hs, id⟩
  | x :: sessions, store, d, report, h, hs, hrecords, hall, hinv => by
    obtain ⟨hknown, s, rfl⟩ := hall x mem_cons_self
    have hfirst : Repaired [s.asStr] store (repairStore records store s) := by
      refine ⟨hs.repairStore hrecords s, grows_repairStore hs hrecords s,
        repairStore_records records store s, fun s' hor => ?_⟩
      refine settled_repairStore hs hrecords s s' (hor.imp_left fun hmem => ?_)
      exact Identifier.ext (mem_singleton.mp hmem)
    refine (throughout_repairSession hlaw h hknown (fun t ht => hinv t store ht (.refl hs))
      (fun t ht => hinv t _ ht hfirst.weaken)).bindSome ?_
    rintro counts t - ⟨hstores, htidy⟩
    refine .mono (fun _ => id) ?_ (throughout_repairSessions hlaw sessions _ t _ hstores
      hfirst.coherent (fun k => (hrecords k).trans (by rw [hfirst.records]))
      (forall_mem_cons.mp hall).2
      fun t after ht hafter => hinv t after ht (hfirst.trans hafter).weaken)
    rintro result t' - ⟨report', after, rfl, hstores', hafter, htidy'⟩
    exact ⟨report', after, rfl, hstores', hfirst.trans hafter, fun ht => htidy' (htidy ht)⟩

theorem mem_readDir (hlaw : config.Lawful order known) {dir : Dir} {name : FileName} :
    name ∈ (exec config order d (.readDir dir)).1 ↔ (d.files.lookup ⟨dir, name⟩).isSome := by
  change name ∈ order ((d.files.keys.filter (·.dir = dir)).map (·.name)) ↔ _
  rw [(hlaw.listed _).mem_iff, mem_map, lookup_isSome]
  constructor
  · rintro ⟨path, hpath, rfl⟩
    obtain ⟨hmem, hdir⟩ := mem_filter.mp hpath
    obtain rfl := of_decide_eq_true hdir
    exact mem_keys.mp hmem
  · intro hmem
    exact ⟨⟨dir, name⟩, mem_filter.mpr ⟨mem_keys.mpr hmem, decide_eq_true rfl⟩, rfl⟩

/-- What removing temporary files leaves. -/
structure Discarded (dir : Dir) (names : List FileName) (d d' : Disk Text) : Prop where
  json : d'.json = d.json
  fewer : ∀ path, d'.files.lookup path = none ∨ d'.files.lookup path = d.files.lookup path
  gone : ∀ process ordinal, .pending process ordinal ∈ names →
    d'.files.lookup ⟨dir, .pending process ordinal⟩ = none

theorem throughout_discard (dir : Dir) (names : List FileName)
    (d : Disk Text) (hinv : ∀ t, t.json = d.json → inv t) :
    (discardTemporary dir names).run.Throughout (exec config order) inv
      (fun result t => (∃ n, result = .ok n) ∧ Discarded dir names d t) d := by
  induction names generalizing d with
  | nil =>
    exact .ret (hinv d rfl)
      ⟨⟨0, rfl⟩, rfl, fun _ => .inr rfl, fun _ _ h => absurd h not_mem_nil⟩
  | cons name rest ih =>
    cases name with
    | json stem =>
      refine (ih d hinv).mono (fun _ => id) ?_
      rintro result t - ⟨hok, hrest⟩
      refine ⟨hok, hrest.json, hrest.fewer, fun process ordinal hmem => ?_⟩
      exact hrest.gone process ordinal ((mem_cons.mp hmem).resolve_left (by simp))
    | pending process ordinal =>
      let removed : Disk Text := { d with files := d.files.erase ⟨dir, .pending process ordinal⟩ }
      have hjson : removed.json = d.json := funext₂ fun _ _ => lookup_erase_ne json_ne_pending
      have herased : ∀ path, removed.files.lookup path = none ∨
          removed.files.lookup path = d.files.lookup path := by
        intro path
        by_cases hpath : path = ⟨dir, .pending process ordinal⟩
        · exact .inl (hpath ▸ lookup_erase _ _)
        · exact .inr (lookup_erase_ne hpath)
      refine .call (hinv d rfl) ?_
      refine Prog.Throughout.bindSome (m := discardTemporary dir rest)
        (ih removed fun t ht => hinv t (ht.trans hjson)) fun n t ht hrest => ?_
      refine .ret ht ⟨⟨n + 1, rfl⟩, hrest.json.trans hjson, fun path => ?_, fun p o hmem => ?_⟩
      · rcases hrest.fewer path with hnone | hsame
        · exact .inl hnone
        · rw [hsame]
          exact herased path
      · rcases mem_cons.mp hmem with heq | hmem
        · cases heq
          rcases hrest.fewer ⟨dir, .pending process ordinal⟩ with hnone | hsame
          · exact hnone
          · exact hsame.trans (lookup_erase _ _)
        · exact hrest.gone p o hmem

theorem reads_discard (dir : Dir) (names : List FileName)
    (hnone : ∀ process ordinal, .pending process ordinal ∉ names) :
    Prog.Reads (exec config order) (discardTemporary dir names : FileM Text Nat).run d (.ok 0) := by
  induction names with
  | nil => exact Prog.reads_ret
  | cons name rest ih =>
    cases name with
    | json stem => exact ih fun p o hmem => hnone p o (mem_cons_of_mem _ hmem)
    | pending process ordinal => exact absurd mem_cons_self (hnone process ordinal)

theorem Discarded.all_gone (hlaw : config.Lawful order known) {d' : Disk Text} {dir : Dir}
    (h : Discarded dir (exec config order d (.readDir dir)).1 d d') (process ordinal : Nat) :
    d'.files.lookup ⟨dir, .pending process ordinal⟩ = none := by
  by_cases hmem : pending process ordinal ∈ (exec config order d (.readDir dir)).1
  · exact h.gone process ordinal hmem
  rw [mem_readDir hlaw, Bool.not_eq_true, Option.isSome_eq_false_iff, Option.isNone_iff_eq_none]
    at hmem
  exact (h.fewer _).elim id fun hsame => hsame.trans hmem

theorem throughout_discardPartialWrites (hlaw : config.Lawful order known)
    (hinv : ∀ t, t.json = d.json → inv t) :
    (discardPartialWrites : FileM Text Nat).run.Throughout (exec config order) inv
      (fun result t => (∃ n, result = .ok n) ∧ t.json = d.json ∧ Tidy t) d := by
  refine (reads_call rfl).thenOk ((throughout_discard .goals _ d hinv).bindSome
    fun n t _ hgoals => ?_)
  refine (reads_call rfl).thenOk ((throughout_discard .sessions _ t fun t' ht' =>
    hinv t' (ht'.trans hgoals.json)).bindSome fun n' t' ht' hsessions => ?_)
  refine .ret ht' ⟨⟨n + n', rfl⟩, hsessions.json.trans hgoals.json, fun dir process ordinal => ?_⟩
  cases dir with
  | goals =>
    -- the second pass leaves what the first has removed
    refine (hsessions.fewer _).elim id fun hsame => hsame.trans ?_
    exact hgoals.all_gone hlaw process ordinal
  | sessions => exact hsessions.all_gone hlaw process ordinal

section

include hlaw h hs

open scoped Classical in
theorem reads_scanRecords (names : List FileName) (found : Table String GoalRecord)
    (hnames : ∀ stem, .json stem ∈ names → (d.json .goals stem).isSome) :
    ∃ records, Prog.Reads (exec config order) (scanRecords config names found).run d (.ok records) ∧
      ∀ k, records.lookup k = if k ∈ known ∧ .json (config.digestOf k) ∈ names then
        store.records.lookup k else found.lookup k := by
  induction names generalizing found with
  | nil => exact ⟨found, Prog.reads_ret, fun k => (if_neg fun hk => not_mem_nil hk.2).symm⟩
  | cons name rest ih =>
    replace ih := fun found => ih found fun stem hmem => hnames stem (mem_cons_of_mem _ hmem)
    cases name with
    | pending process ordinal =>
      obtain ⟨records, hreads, hlookup⟩ := ih found
      refine ⟨records, hreads, fun k => (hlookup k).trans ?_⟩
      simp only [mem_cons, reduceCtorEq, false_or]
    | json stem =>
      obtain ⟨k, hknown, rfl⟩ := h.named .goals stem (hnames stem mem_cons_self)
      have hsome := hnames _ mem_cons_self
      rw [h.record k hknown] at hsome
      obtain ⟨record, hrecord⟩ := Option.isSome_iff_exists.mp (Option.isSome_of_isSome_bind hsome)
      have hkey := hs.keyed k record hrecord
      obtain ⟨records, hreads, hlookup⟩ := ih (found.insert record.goalId.asStr record)
      refine ⟨records, ?_, fun k' => (hlookup k').trans ?_⟩
      · have hread := reads_record hlaw h hs hknown
        rw [hrecord] at hread
        exact hread.bindOk hreads
      · simp only [mem_cons, json.injEq, hkey]
        by_cases heq : k' = k
        · subst heq
          simp only [true_or, hknown, true_and, if_true, lookup_insert, hrecord, ite_self]
        · have hstem : k' ∈ known → config.digestOf k' ≠ config.digestOf k :=
            fun hk' hstem => heq (hlaw.digest hk' hknown hstem)
          rw [lookup_insert_ne heq]
          exact if_congr (and_congr_right fun hk' => (or_iff_right (hstem hk')).symm) rfl rfl

omit hs in
theorem reads_scanIndexes (names : List FileName) (found : List String)
    (hnames : ∀ stem, .json stem ∈ names → (d.json .sessions stem).isSome) :
    ∃ sessions, Prog.Reads (exec config order) (scanIndexes config names found).run d
        (.ok sessions) ∧
      ∀ x, x ∈ sessions ↔ x ∈ found ∨ x ∈ known ∧ .json (config.digestOf x) ∈ names := by
  induction names generalizing found with
  | nil =>
    refine ⟨found, Prog.reads_ret, fun x => ?_⟩
    simp only [not_mem_nil, and_false, or_false]
  | cons name rest ih =>
    replace ih := fun found => ih found fun stem hmem => hnames stem (mem_cons_of_mem _ hmem)
    cases name with
    | pending process ordinal =>
      obtain ⟨sessions, hreads, hmem⟩ := ih found
      refine ⟨sessions, hreads, fun x => (hmem x).trans ?_⟩
      simp only [mem_cons, reduceCtorEq, false_or]
    | json stem =>
      obtain ⟨k, hknown, rfl⟩ := h.named .sessions stem (hnames stem mem_cons_self)
      have hsome := hnames _ mem_cons_self
      rw [h.index k hknown] at hsome
      obtain ⟨index, hindex⟩ := Option.isSome_iff_exists.mp (Option.isSome_of_isSome_bind hsome)
      obtain ⟨text, hfile, hback⟩ := h.index_text hlaw hindex
      obtain ⟨sessions, hreads, hmem⟩ := ih (found.insert k)
      refine ⟨sessions, ?_, fun x => (hmem x).trans ?_⟩
      · refine Prog.Reads.bindOk (reads_call rfl) ?_
        rw [show (exec config order d (.read ⟨.sessions, .json (config.digestOf k)⟩)).1
          = d.json .sessions (config.digestOf k) from rfl, hfile]
        dsimp only
        rw [hback]
        exact reads_check.bindOk hreads
      · have hstem : x ∈ known → (config.digestOf x = config.digestOf k ↔ x = k) :=
          fun hx => hlaw.digest.eq_iff hx hknown
        have heq : x = k → x ∈ known := fun heq => heq ▸ hknown
        rw [mem_insert_iff, mem_cons, json.injEq]
        tauto

/-- What the two scans find: the records, and all sessions that have a goal or an index. -/
theorem reads_scans : ∃ records sessions,
    Prog.Reads (exec config order)
      (scanRecords config (exec config order d (.readDir .goals)).1 ∅).run d (.ok records) ∧
    Prog.Reads (exec config order)
      (scanIndexes config (exec config order d (.readDir .sessions)).1
        (records.values.map (·.sessionId.asStr)).dedup).run d (.ok sessions) ∧
    (∀ k, records.lookup k = store.records.lookup k) ∧
    (∀ x ∈ sessions.insertionSort (· ≤ ·), x ∈ known ∧ ∃ s : SessionId, s.asStr = x) ∧
    ∀ s : SessionId, s.asStr ∈ sessions.insertionSort (· ≤ ·) ∨ Settled store s := by
  obtain ⟨records, hreads, hlookup⟩ := reads_scanRecords hlaw h hs
    (exec config order d (.readDir .goals)).1 ∅ fun stem hmem => (mem_readDir hlaw).mp hmem
  obtain ⟨sessions, hreads', hmem⟩ := reads_scanIndexes hlaw h
    (exec config order d (.readDir .sessions)).1 (records.values.map (·.sessionId.asStr)).dedup
    fun stem hmem => (mem_readDir hlaw).mp hmem
  have hrecords : ∀ k, records.lookup k = store.records.lookup k := by
    intro k
    rw [hlookup]
    split_ifs with hnot
    · rfl
    cases hrecord : store.records.lookup k with
    | none => exact lookup_empty k
    | some record =>
      obtain ⟨text, hfile, -⟩ := h.record_bytes hlaw hrecord
      refine absurd ⟨(h.goals k record hrecord).1, (mem_readDir hlaw).mpr ?_⟩ hnot
      exact Option.isSome_iff_exists.mpr ⟨text, hfile⟩
  have hindexed : ∀ x, x ∈ known ∧
      json (config.digestOf x) ∈ (exec config order d (.readDir .sessions)).1
        ↔ ∃ index, store.indexes.lookup x = some index := by
    intro x
    rw [mem_readDir hlaw]
    change _ ∧ (d.json .sessions (config.digestOf x)).isSome = true ↔ _
    cases hindex : store.indexes.lookup x with
    | none =>
      refine iff_of_false (fun ⟨hx, hsome⟩ => ?_) (by simp)
      rw [h.index x hx, hindex] at hsome
      cases hsome
    | some index =>
      obtain ⟨text, hfile, -⟩ := h.index_text hlaw hindex
      simp [hfile, h.sessions x index hindex]
  refine ⟨records, sessions, hreads, hreads', hrecords, fun x hx => ?_, fun s => ?_⟩
  · rcases (hmem x).mp ((perm_insertionSort _ _).mem_iff.mp hx) with hfound | hfile
    · obtain ⟨record, hrecord, rfl⟩ := mem_map.mp (mem_dedup.mp hfound)
      obtain ⟨k, hrecord⟩ := Table.mem_values.mp hrecord
      exact ⟨(h.goals k record ((hrecords k).symm.trans hrecord)).2, record.sessionId, rfl⟩
    · obtain ⟨index, hindex⟩ := (hindexed x).mp hfile
      exact ⟨hfile.1, hs.named x index hindex⟩
  · by_cases hx : s.asStr ∈ sessions.insertionSort (· ≤ ·)
    · exact .inl hx
    -- a session with no goal and no index
    rw [(perm_insertionSort _ _).mem_iff, hmem, not_or, hindexed] at hx
    have hempty : store.readIndex s = ⟨[], 0⟩ := by
      unfold GoalStore.readIndex
      rw [Option.eq_none_iff_forall_ne_some.mpr fun index hindex => hx.2 ⟨index, hindex⟩]
      rfl
    refine .inr ⟨fun k record hrecord hsession => absurd ?_ hx.1, ?_⟩
    · rw [mem_dedup, mem_map]
      exact ⟨record, Table.mem_values.mpr ⟨k, (hrecords k).trans hrecord⟩, by rw [hsession]⟩
    · rw [hempty]
      exact fun k hk => absurd hk not_mem_nil

/-- **Opening a store that needs no repair** changes nothing. -/
theorem reads_recover (htidy : Tidy d) (hsettled : ∀ s, Settled store s) :
    Prog.Reads (exec config order) (recover config).run d (.ok ⟨0, 0, 0⟩) := by
  have hnone : ∀ dir process ordinal,
      pending process ordinal ∉ (exec config order d (.readDir dir)).1 := by
    intro dir process ordinal hmem
    rw [mem_readDir hlaw, htidy] at hmem
    cases hmem
  have hdiscard : Prog.Reads (exec config order) (discardPartialWrites : FileM Text Nat).run d
      (.ok 0) :=
    (reads_call rfl).bindOk ((reads_discard .goals _ (hnone .goals)).bindOk ((reads_call rfl).bindOk
      ((reads_discard .sessions _ (hnone .sessions)).bindOk Prog.reads_ret)))
  obtain ⟨records, sessions, hscan, hscan', hrecords, hnamed, -⟩ := reads_scans hlaw h hs
  refine hdiscard.bindOk ((reads_call rfl).bindOk (hscan.bindOk ((reads_call rfl).bindOk
    (hscan'.bindOk ?_))))
  generalize sessions.insertionSort (· ≤ ·) = sorted at hnamed ⊢
  induction sorted with
  | nil => exact Prog.reads_ret
  | cons x sorted ih =>
    obtain ⟨hknown, s, rfl⟩ := hnamed x mem_cons_self
    refine (reads_repairSession hlaw h hs hrecords hknown (hsettled s)).bindOk ?_
    exact ih (forall_mem_cons.mp hnamed).2

/-- **Opening a store**: at every point nothing is lost, and at the end every session is
settled and there is no temporary file. -/
theorem throughout_recover
    (hinv : ∀ t after, Stores config known t after → Repaired [] store after → inv t) :
    (recover config).run.Throughout (exec config order) inv
      (fun result t => ∃ report after, result = .ok report ∧ Stores config known t after ∧
        Repaired [] store after ∧ (∀ s, Settled after s) ∧ Tidy t) d := by
  refine (throughout_discardPartialWrites hlaw fun t ht =>
    hinv t store (h.of_json ht) (.refl hs)).bindSome ?_
  rintro n t - ⟨hjson, htidy⟩
  obtain ⟨records, sessions, hscan, hscan', hrecords, hnamed, hall⟩ :=
    reads_scans hlaw (h.of_json hjson) hs
  refine (reads_call rfl).thenOk (hscan.thenOk ((reads_call rfl).thenOk (hscan'.thenOk
    (.mono (fun _ => id) ?_ (throughout_repairSessions hlaw _ store t _ (h.of_json hjson) hs
      hrecords hnamed hinv)))))
  rintro result t' - ⟨report, after, rfl, hstores, hrepaired, htidy'⟩
  exact ⟨report, after, rfl, hstores, hrepaired.weaken, fun s => hrepaired.settled s (hall s),
    htidy' htidy⟩

end

end Programs

end GtaClaw.Goal.FileStore
