import GtaClaw.Secret.Recover

/-!
# Transactions and crashes

One transaction runs from `begin` to `commit` or `rollback` and may stop between any two
backend calls; after it any number of recoveries may do so as well. What decides whether
the next recovery undoes or completes it are two things about the store that they leave:
as long as there is a manifest it lists every shadow, and one that is not committed has
all its shadows.

Both can fail. A crash between writing a shadow and recording it leaves a shadow that
recovery spares, because the manifest of its transaction was there when it began; and a
crash between deleting the first shadow and the manifest of a transaction that rolls back
makes every later recovery give up.
-/

namespace GtaClaw.Secret

open Lib Prog Throughout Watched Reads List

variable {V : Type}

/-! ## Runs -/

inductive Write (V : Type) where
  | put (key : CredentialKey) (secret : V) (polls : Nat)
  | remove (key : CredentialKey) (polls : Nat)

def Write.op : Write V → TxOp V
  | .put key secret polls => .put key secret polls
  | .remove key polls => .remove key polls

def Write.key : Write V → CredentialKey
  | .put key _ _ => key
  | .remove key _ => key

/-- What the key holds when the write has succeeded. -/
def Write.value : Write V → Option V
  | .put _ secret _ => some secret
  | .remove _ _ => none

inductive Finish where
  | commit
  | rollback

def Finish.op : Finish → TxOp V
  | .commit => .commit
  | .rollback => .rollback

section Programs

variable (config : Config V) (order : List String → List String) (id : TransactionId)

/-- One write after the other, and whether each succeeded. -/
def writeAll : List (Write V) →
    Prog (BackendOp V) BackendOp.Answer (List (Except SecretStoreError Unit))
  | [] => .ret []
  | write :: writes =>
    (write.op.run config id).run.bind fun result =>
      (writeAll writes).bind fun results => .ret (result :: results)

def transaction (writes : List (Write V)) (finish : Finish) :
    Prog (BackendOp V) BackendOp.Answer (List (Except SecretStoreError Unit)) :=
  (begin config id).run.bind fun
    | .error _ => .ret []
    | .ok _ => (writeAll config id writes).bind fun results =>
      (finish.op.run config id).run.bind fun _ => .ret results

/-- What is left when the transaction stops after `steps` calls, and each of the recoveries
after it after the number of calls that is given with it. -/
def crashed (base : Store V) (writes : List (Write V)) (finish : Finish) (steps : Nat)
    (attempts : List (Nat × Nat)) : Watched V :=
  attempts.foldl
    (fun w attempt =>
      (recoverPending config attempt.1).run.cut (Watched.exec config order id) attempt.2 w)
    ((transaction config id writes finish).cut (Watched.exec config order id) steps ⟨base, false⟩)

end Programs

/-- What a key holds after these writes, of which those that failed did nothing. -/
def lastWritten (key : CredentialKey) :
    List (Write V × Except SecretStoreError Unit) → Option V → Option V
  | [], value => value
  | (_, .error _) :: rest, value => lastWritten key rest value
  | (write, .ok ()) :: rest, value =>
    lastWritten key rest (if write.key = key then write.value else value)

/-! ## A transaction that is open -/

structure Open (config : Config V) (base : View V) (id : TransactionId) (m : Manifest)
    (w : Watched V) : Prop where
  only : Only id w.view
  committed : w.committed = false
  manifest : manifestIn config w.view id = some (.ok m)
  state : m.state = .pending
  undoable : Undoable base id m w.view
  shadowed : Shadowed id m.entries w.view
  recorded : ∀ slot, (w.view (shadowAt id slot)).isSome = true → ∃ e ∈ m.entries, e.slot = slot
  slots : ∀ e ∈ m.entries, e.slot.toNat < m.entries.length

section Transactions

variable {config : Config V} {order : List String → List String} {base target : View V}
  {id : TransactionId} {w w' : Watched V} {m : Manifest} {key : CredentialKey} {slot : UInt32}

section

variable (h : Open config base id m w)
include h

theorem Open.not_committed : m.state ≠ .committed := by
  rw [h.state]
  decide

theorem Open.reach : Reach config base target id w := by
  refine ⟨h.only, ?_⟩
  rw [h.committed]
  exact .undoable h.manifest h.not_committed h.undoable (.inl h.shadowed)

theorem Open.version : m.version = manifestVersion := by
  obtain ⟨raw, _, hraw⟩ := Option.map_eq_some_iff.mp h.manifest
  exact version_of_readManifest hraw

theorem Open.lock (hchanged : LockChanged w w') :
    Open config base id m w' where
  only := h.only.lock hchanged.view
  committed := hchanged.committed.trans h.committed
  manifest := hchanged.view.manifest.trans h.manifest
  state := h.state
  undoable := h.undoable.congr (fun e _ => hchanged.view.shadow e.slot) rfl
    fun key hkey _ => hchanged.view.agree key hkey
  shadowed := (Shadowed.congr fun e _ => hchanged.view.shadow e.slot).mpr h.shadowed
  recorded := fun slot hsome => by
    rw [hchanged.view.shadow] at hsome
    exact h.recorded slot hsome
  slots := h.slots

theorem Open.reads_manifest :
    Reads (exec config order id) (loadManifest config id).run w (.ok (some m)) := by
  have hreach : Reach config base base id w := h.reach
  exact reads_loadManifest hreach h.manifest

theorem reads_requirePending :
    Reads (exec config order id) (requirePending config id).run w (.ok m) := by
  refine bindOk h.reads_manifest ?_
  dsimp only
  rw [h.state]
  exact reads_ret

end

theorem reads_detectConflict (hlaw : config.Lawful order) (h : Only id w.view) :
    ∀ accounts : List String,
      (∀ account ∈ accounts,
        account ∈ (w.store.exec order (.accounts transactionService)).1) →
      Reads (exec config order id) (detectConflict config id key accounts).run w (.ok ())
  | [], _ => reads_ret
  | account :: accounts, hmem => by
    have hrest := reads_detectConflict hlaw h accounts
      (forall_mem_cons.mp hmem).2
    unfold detectConflict
    split
    · exact hrest
    rename_i other hother
    rw [if_pos (manifestId_of_account hlaw h (hmem account mem_cons_self) hother).1]
    exact hrest

theorem Open.slot_fresh (h : Open config base id m w)
    (hslot : slotOf m.entries.length = some slot) : ∀ e ∈ m.entries, e.slot ≠ slot := by
  rintro e he rfl
  have hlt := h.slots e he
  rw [slotOf_eq_some hslot] at hlt
  omega

/-- The value is in the shadow, and nothing else has changed. -/
structure Copied (config : Config V) (base target : View V) (id : TransactionId) (slot : UInt32)
    (value : Option V) (w t : Watched V) : Prop where
  reach : Reach config base target id t
  committed : t.committed = false
  shadow : t.view (shadowAt id slot) = value
  other : ∀ k, k ≠ shadowAt id slot → t.view k = w.view k

theorem throughout_copyShadow (h : Open config base id m w)
    (hslot : slotOf m.entries.length = some slot) (value : Option V) :
    Recoverable config order base target id (copyShadow id slot value).run
      (fun result t => result = .ok () ∧ Copied config base target id slot value w t) w := by
  have hfresh := h.slot_fresh hslot
  unfold copyShadow
  cases value with
  | none =>
    refine .ret h.reach ⟨rfl, h.reach, h.committed, ?_, fun _ _ => rfl⟩
    refine Option.not_isSome_iff_eq_none.mp fun hsome => ?_
    obtain ⟨e, he, heq⟩ := h.recorded slot hsome
    exact hfresh e he heq
  | some v =>
    rw [shadowKey_eq]
    refine thenOk reads_ret (throughout_lastSet h.reach fun t hw => ?_)
    have hshadow : ∀ e ∈ m.entries, t.view (shadowAt id e.slot) = w.view (shadowAt id e.slot) :=
      fun e he => hw.of_ne fun heq => hfresh e he (shadowAt_inj heq).2
    have hm : manifestIn config t.view id = some (.ok m) := by
      rw [hw.view]
      exact h.manifest
    have hfalse : t.committed = false := hw.not_committed h.committed hm h.not_committed
    have hlive : Agree t.view w.view := hw.agree (not_live_reserved rfl)
    have hreach : Reach config base target id t := by
      refine ⟨h.only.write hw fun _ => .inr (.inr ⟨slot, rfl⟩), ?_⟩
      rw [hfalse]
      exact .undoable hm h.not_committed (h.undoable.congr hshadow rfl fun k hk _ => hlive k hk)
        (.inl ((Shadowed.congr hshadow).mpr h.shadowed))
    exact ⟨hreach, rfl, hreach, hfalse, hw.self, fun k hk => hw.of_ne hk⟩

theorem Open.enrol (h : Open config base id m w) (hkey : key.Live) (hnew : m.holds key = false)
    (hslot : slotOf m.entries.length = some slot) {t : Watched V}
    (hcopied : Copied config base target id slot (w.view key) w t) {raw : V}
    (hread : readManifest config raw
      = .ok (m.push ⟨key.service, key.account, slot, (w.view key).isSome⟩))
    (hw : Wrote config id (manifestAt id) (some raw) t w') :
    Open config base id (m.push ⟨key.service, key.account, slot, (w.view key).isSome⟩) w' := by
  have hbase : w.view key = base key := h.undoable.off key hkey hnew
  have hfresh := h.slot_fresh hslot
  have hm : manifestIn config w'.view id
      = some (.ok (m.push ⟨key.service, key.account, slot, (w.view key).isSome⟩)) := by
    rw [hw.view, manifestIn_update_self, Option.map_some, hread]
  have hshadow : w'.view (shadowAt id slot) = w.view key :=
    (hw.of_ne (manifestAt_ne_shadowAt id id slot).symm).trans hcopied.shadow
  have hother : ∀ e ∈ m.entries, w'.view (shadowAt id e.slot) = w.view (shadowAt id e.slot) := by
    intro e he
    rw [hw.of_ne (manifestAt_ne_shadowAt id id e.slot).symm]
    exact hcopied.other _ fun heq => hfresh e he (shadowAt_inj heq).2
  refine ⟨hcopied.reach.only.write hw fun _ => .inr (.inl rfl),
    hw.not_committed hcopied.committed hm h.not_committed, hm, h.state,
    ⟨fun e he => ?_, fun k hk hoff => ?_⟩, fun e he hexisted => ?_, fun slot' hsome => ?_,
    fun e he => ?_⟩
  · rcases mem_append.mp he with hold | hlast
    · rw [hother e hold]
      exact h.undoable.entries e hold
    cases mem_singleton.mp hlast
    refine ⟨key, liveKey_mk key slot _, hkey, by rw [hbase], fun v hv => ?_⟩
    rw [hshadow, hbase] at hv
    exact hv
  · have hnot : ¬ (m.holds k = true ∨ k = key) := by
      rw [← holds_push (liveKey_mk key slot (w.view key).isSome), Bool.not_eq_true]
      exact hoff
    have hheld : m.holds k = false := Bool.eq_false_iff.mpr fun hk' => hnot (.inl hk')
    rw [hw.of_ne (hk.ne_manifestAt id), hcopied.other k (hk.ne_shadowAt id slot)]
    exact h.undoable.off k hk hheld
  · rcases mem_append.mp he with hold | hlast
    · rw [hother e hold]
      exact h.shadowed e hold hexisted
    cases mem_singleton.mp hlast
    rw [hshadow]
    exact hexisted
  · by_cases heq : slot' = slot
    · exact ⟨_, mem_append_right _ (mem_singleton.mpr rfl), heq.symm⟩
    rw [hw.of_ne (manifestAt_ne_shadowAt id id slot').symm,
      hcopied.other _ fun hkeys => heq (shadowAt_inj hkeys).2] at hsome
    obtain ⟨e, he, hslot'⟩ := h.recorded slot' hsome
    exact ⟨e, mem_append_left _ he, hslot'⟩
  · rw [Manifest.push, length_append]
    rcases mem_append.mp he with hold | hlast
    · exact Nat.lt_succ_of_lt (h.slots e hold)
    cases mem_singleton.mp hlast
    rw [slotOf_eq_some hslot]
    exact Nat.lt_succ_self _

/-- The transaction is still open and the live keys are as they were; if it succeeded, the
key is enrolled. -/
def Enrolled (config : Config V) (base : View V) (id : TransactionId) (key : CredentialKey)
    (w : Watched V) (result : Except SecretStoreError Unit) (w' : Watched V) : Prop :=
  ∃ m, Open config base id m w' ∧ Agree w'.view w.view ∧ (result = .ok () → m.holds key = true)

theorem throughout_enrol (hlaw : config.Lawful order) (h : Open config base id m w)
    (hkey : key.Live) :
    Recoverable config order base target id (enrol config id key).run
      (Enrolled config base id key w) w := by
  have hreach : Reach config base target id w := h.reach
  refine thenOk (reads_requirePending h) ?_
  split_ifs with hheld
  · exact .ret hreach ⟨m, h, Agree.refl _, fun _ => hheld⟩
  refine thenOk (reads_accounts hreach) (thenOk
    (reads_detectConflict hlaw h.only _ fun _ ha => ha) ?_)
  cases hslot : slotOf m.entries.length with
  | none => exact .ret hreach ⟨m, h, Agree.refl _, nofun⟩
  | some slot =>
    refine thenOk (reads_get hreach key) (bindDone
      (throughout_copyShadow h hslot (w.view key)) fun t ht hcopied => ?_)
    refine throughout_saveManifest hlaw h.version ht fun raw w' hread hw => ?_
    have hopen := h.enrol hkey (Bool.eq_false_iff.mpr hheld) hslot hcopied hread hw
    refine ⟨hopen.reach, _, hopen, fun k hk => ?_, fun _ =>
      (holds_push (liveKey_mk key slot _)).mpr (.inr rfl)⟩
    rw [hw.of_ne (hk.ne_manifestAt id)]
    exact hcopied.other k (hk.ne_shadowAt id slot)

/-- A lock that nobody has is released again. -/
theorem throughout_snapshot (hlaw : config.Lawful order) (h : Open config base id m w)
    (hfree : w.view lockAt = none) (key : CredentialKey) (polls : Nat) :
    Recoverable config order base target id (snapshot config id key polls).run
      (fun result w' => Enrolled config base id key w result w' ∧ w'.view lockAt = none ∧
        (result = .ok () → key.Live)) w := by
  have hreach : Reach config base target id w := h.reach
  unfold snapshot
  split_ifs with hkey
  · exact .ret hreach ⟨⟨m, h, Agree.refl _, nofun⟩, hfree, nofun⟩
  refine thenOk (reads_requirePending h) ?_
  split_ifs with hheld
  · exact .ret hreach ⟨⟨m, h, Agree.refl _, fun _ => hheld⟩, hfree, fun _ => hkey⟩
  refine bindDone (thenOk reads_ret
    (throughout_claimLoop_free hreach hfree _ false polls)) fun t _ hclaimed => ?_
  refine throughout_holding (throughout_enrol hlaw (h.lock hclaimed) hkey) ?_
  rintro result t' w' ⟨m', hm', hlive, hdone⟩ hreleased hnone -
  refine ⟨⟨m', hm'.lock hreleased, ?_, hdone⟩, hnone, fun _ => hkey⟩
  exact hreleased.view.agree.trans (hlive.trans hclaimed.view.agree)

/-! ## Writing -/

theorem Open.write (h : Open config base id m w) (hkey : key.Live) (hheld : m.holds key = true)
    {v : Option V} (hw : Wrote config id key v w w') : Open config base id m w' := by
  have hshadow : ∀ slot, w'.view (shadowAt id slot) = w.view (shadowAt id slot) :=
    fun slot => hw.of_ne (hkey.ne_shadowAt id slot).symm
  have hm : manifestIn config w'.view id = some (.ok m) := by
    rw [hw.view, manifestIn_update_live hkey]
    exact h.manifest
  refine ⟨h.only.write hw fun hnot => absurd hkey hnot,
    hw.not_committed h.committed hm h.not_committed, hm, h.state,
    h.undoable.congr (fun e _ => hshadow e.slot) rfl fun k _ hoff => hw.of_ne ?_,
    (Shadowed.congr fun e _ => hshadow e.slot).mpr h.shadowed, fun slot hsome => ?_, h.slots⟩
  · rintro rfl
    rw [hheld] at hoff
    cases hoff
  · rw [hshadow] at hsome
    exact h.recorded slot hsome

/-- The transaction is open, nobody has the lock, and these writes were made. -/
structure Written (config : Config V) (base : View V) (id : TransactionId)
    (writes : List (Write V × Except SecretStoreError Unit)) (w w' : Watched V) : Prop where
  open_ : ∃ m, Open config base id m w'
  free : w'.view lockAt = none
  live : ∀ key : CredentialKey, key.Live → w'.view key = lastWritten key writes (w.view key)

theorem written_of_wrote {write : Write V} {t : Watched V} (ht : Open config base id m t)
    (hfree : t.view lockAt = none) (hlive : Agree t.view w.view) (hkey : write.key.Live)
    (hheld : m.holds write.key = true) (hw : Wrote config id write.key write.value t w') :
    Written config base id [(write, .ok ())] w w' := by
  refine ⟨⟨m, ht.write hkey hheld hw⟩, ?_, fun k hk => ?_⟩
  · rw [hw.of_ne hkey.ne_lockAt.symm]
    exact hfree
  · change _ = if write.key = k then write.value else w.view k
    split_ifs with heq
    · rw [← heq, hw.self]
    · rw [hw.of_ne fun h => heq h.symm]
      exact hlive k hk

section

variable (hlaw : config.Lawful order) (h : Open config base id m w) (hfree : w.view lockAt = none)
include hlaw h hfree

theorem throughout_remove (key : CredentialKey) (polls : Nat) :
    Recoverable config order base target id (remove config id key polls).run
      (fun result w' =>
        Written config base id [(.remove key polls, result.map fun _ => ())] w w') w := by
  refine bindExcept (throughout_snapshot hlaw h hfree key polls) ?_ ?_
  · rintro _ t ht ⟨⟨m', hm', hlive, hheld⟩, hnone, hkey⟩
    have hw : Wrote config id key none t (t.exec config order id (.delete key)).2 := wrote_erase key
    exact .call ht (.ret (hm'.write (hkey rfl) (hheld rfl) hw).reach
      (written_of_wrote hm' hnone hlive (hkey rfl) (hheld rfl) hw))
  · rintro error t - ⟨⟨m', hm', hlive, -⟩, hnone, -⟩
    exact ⟨⟨m', hm'⟩, hnone, hlive⟩

theorem throughout_write (write : Write V) :
    Recoverable config order base target id (write.op.run config id).run
      (fun result w' => Written config base id [(write, result)] w w') w := by
  cases write with
  | put key secret polls =>
    refine bindExcept (throughout_snapshot hlaw h hfree key polls) ?_ ?_
    · rintro _ t ht ⟨⟨m', hm', hlive, hheld⟩, hnone, hkey⟩
      refine throughout_lastSet ht fun w' hw => ?_
      exact ⟨(hm'.write (hkey rfl) (hheld rfl) hw).reach,
        written_of_wrote hm' hnone hlive (hkey rfl) (hheld rfl) hw⟩
    · rintro error t - ⟨⟨m', hm', hlive, -⟩, hnone, -⟩
      exact ⟨⟨m', hm'⟩, hnone, hlive⟩
  | remove key polls =>
    exact bindExcept (throughout_remove hlaw h hfree key polls)
      (fun _ _ ht hwritten => .ret ht hwritten) fun _ _ _ hwritten => hwritten

end

theorem throughout_writeAll (hlaw : config.Lawful order) : ∀ (writes : List (Write V))
    {w : Watched V} {m : Manifest}, Open config base id m w → w.view lockAt = none →
    Recoverable config order base target id (writeAll config id writes)
      (fun results w' => Written config base id (writes.zip results) w w') w
  | [], _, m, h, hfree => .ret h.reach ⟨⟨m, h⟩, hfree, fun _ _ => rfl⟩
  | write :: writes, w, m, h, hfree => by
    refine bind (fun result t _ ht => ?_) (throughout_write hlaw h hfree write)
    obtain ⟨m', hm'⟩ := ht.open_
    refine bind (fun results w' hw' hwritten => ?_)
      (throughout_writeAll hlaw writes hm' ht.free)
    refine .ret hw' ⟨hwritten.open_, hwritten.free, fun key hkey => ?_⟩
    rw [hwritten.live key hkey, ht.live key hkey]
    cases result with
    | ok _ | error _ => rfl

/-! ## The ends of a transaction -/

theorem throughout_commit (hlaw : config.Lawful order) (h : Open config base id m w)
    (htarget : Agree w.view target) :
    Recoverable config order base target id (commit config id).run (fun _ _ => True) w := by
  have hreach : Reach config base target id w := h.reach
  refine thenOk h.reads_manifest ?_
  dsimp only
  rw [h.state]
  -- once the manifest is stored, all that is left to do is to clean up
  have hsave : Recoverable config order base target id
      (saveManifest config id { m with state := .committed }).run
      (fun result t => result = .ok () ∧
        Settled config base target id { m with state := .committed } t) w := by
    refine throughout_saveManifest hlaw h.version hreach fun raw t hread hw => ?_
    have hm : manifestIn config t.view id = some (.ok { m with state := .committed }) := by
      rw [hw.view, manifestIn_update_self, Option.map_some, hread]
    have hflag : t.committed = true := by
      have hin : committedIn config t.view id = true := by
        unfold committedIn
        rw [hm]
        rfl
      rw [hw.committed, hin, Bool.or_true]
    have hlive : Agree t.view target := (hw.agree (not_live_reserved rfl)).trans htarget
    have ht : Reach config base target id t := by
      refine ⟨h.only.write hw fun _ => .inr (.inl rfl), ?_⟩
      rw [hflag]
      exact .committed hm rfl hlive
    refine ⟨ht, rfl, ht, hm, nofun, fun hfalse => ?_⟩
    cases hfalse.symm.trans hflag
  refine bindDone hsave fun t _ hsettled => ?_
  exact (throughout_discardBookkeeping hsettled).mono (fun _ hinv => hinv) fun _ _ _ _ => trivial

theorem open_of_begin {s : Store V} (hclean : Clean s) {raw : V}
    (hread : readManifest config raw = .ok ⟨manifestVersion, .pending, []⟩)
    (hw : Wrote config id (manifestAt id) (some raw) ⟨s, false⟩ w) :
    Open config s.view id ⟨manifestVersion, .pending, []⟩ w := by
  have hm : manifestIn config w.view id = some (.ok ⟨manifestVersion, .pending, []⟩) := by
    rw [hw.view, manifestIn_update_self, Option.map_some, hread]
  have hempty : ∀ key : CredentialKey, ¬ key.Live → key ≠ manifestAt id → w.view key = none :=
    fun key hkey hne => (hw.of_ne hne).trans (hclean key hkey)
  refine ⟨fun key hkey hsome => ?_, ?_, hm, rfl, ⟨nofun, fun key hkey _ => ?_⟩, nofun,
    fun slot hsome => ?_, nofun⟩
  · by_cases heq : key = manifestAt id
    · exact .inr (.inl heq)
    · rw [hempty key hkey heq] at hsome
      cases hsome
  · exact hw.not_committed rfl hm nofun
  · exact hw.of_ne (hkey.ne_manifestAt id)
  · rw [hempty _ (not_live_reserved rfl) (manifestAt_ne_shadowAt id id slot).symm] at hsome
    cases hsome

theorem throughout_begin (hlaw : config.Lawful order) {s : Store V} (hclean : Clean s) :
    Recoverable config order s.view target id (begin config id).run
      (fun result w => result = .ok id ∧ Written config s.view id [] ⟨s, false⟩ w) ⟨s, false⟩ := by
  have hempty : ∀ key : CredentialKey, ¬ key.Live → view ⟨s, false⟩ key = none := hclean
  have hreach : Reach config s.view target id ⟨s, false⟩ := by
    refine ⟨fun key hkey hsome => ?_, .undone (manifestIn_eq_none.mpr (hempty _ (not_live_reserved rfl)))
      (Agree.refl _)⟩
    rw [hempty key hkey] at hsome
    cases hsome
  have hsave : Recoverable config order s.view target id
      (saveManifest config id ⟨manifestVersion, .pending, []⟩).run
      (fun result w => result = .ok () ∧ Written config s.view id [] ⟨s, false⟩ w) ⟨s, false⟩ := by
    refine throughout_saveManifest hlaw rfl hreach fun raw w hread hw => ?_
    have hopen := open_of_begin hclean hread hw
    refine ⟨hopen.reach, rfl, ⟨_, hopen⟩, ?_, fun key hkey => hw.of_ne (hkey.ne_manifestAt id)⟩
    rw [hw.of_ne (manifestAt_ne_lockAt id).symm]
    exact hempty _ (not_live_reserved rfl)
  unfold begin
  rw [manifestKey_eq]
  refine thenOk (reads_accounts hreach) (thenOk reads_ret
    (thenOk (reads_get hreach _) ?_))
  rw [hempty _ (not_live_reserved rfl)]
  exact bindDone hsave fun t ht hwritten => .ret ht ⟨rfl, hwritten⟩

end Transactions

/-! ## The whole run -/

section Runs

variable (config : Config V) (order : List String → List String) (id : TransactionId)

/-- What the key holds when the writes of the transaction have been made. -/
def written (base : Store V) (writes : List (Write V)) (finish : Finish) (key : CredentialKey) :
    Option V :=
  lastWritten key
    (writes.zip ((transaction config id writes finish).runAll (Watched.exec config order id)
      ⟨base, false⟩).1)
    (base.lookup key)

/-- The next recovery succeeds and leaves the values as they have to be and none of the
bookkeeping, and the one after it finds nothing to do. -/
def RecoversFrom (base : Store V) (writes : List (Write V)) (finish : Finish) (w : Watched V)
    (polls : Nat) : Prop :=
  ∃ recovered w',
    (recoverPending config polls).run.runAll (Watched.exec config order id) w = (.ok recovered, w') ∧
    (∀ key : CredentialKey, key.Live → w'.store.lookup key =
      if w.committed then written config order id base writes finish key else base.lookup key) ∧
    (∀ other, w'.store.lookup (manifestAt other) = none ∧
      ∀ slot, w'.store.lookup (shadowAt other slot) = none) ∧
    ∀ polls',
      ((recoverPending config polls').run.runAll (Watched.exec config order id) w').1 = .ok []

variable {config order id} {base : Store V} {writes : List (Write V)} {finish : Finish}

theorem throughout_transaction (hlaw : config.Lawful order) (hclean : Clean base) :
    Recoverable config order base.view (written config order id base writes finish) id
      (transaction config id writes finish) (fun _ _ => True)
      ⟨base, false⟩ := by
  have hresults := runAll_bind (exec config order id)
    (fun
      | .error _ => .ret []
      | .ok _ => (writeAll config id writes).bind fun results =>
        (finish.op.run config id).run.bind fun _ => .ret results) (begin config id).run ⟨base, false⟩
  refine bind ?_ (throughout_begin hlaw hclean).exact
  rintro _ t - ⟨⟨rfl, hbegun⟩, hbegin⟩
  rw [hbegin] at hresults
  obtain ⟨m, hm⟩ := hbegun.open_
  refine bind ?_ (throughout_writeAll hlaw writes hm hbegun.free).exact
  rintro results w hw ⟨hwritten, hwrites⟩
  have hall : ((transaction config id writes finish).runAll (exec config order id)
      ⟨base, false⟩).1 = results := by
    refine (congrArg Prod.fst hresults).trans ?_
    rw [runAll_bind, hwrites, runAll_bind]
    rfl
  obtain ⟨m', hm'⟩ := hwritten.open_
  have hfinish : Recoverable config order base.view (written config order id base writes finish) id
      (finish.op.run config id).run
      (fun _ _ => True) w := by
    cases finish with
    | commit =>
      refine throughout_commit hlaw hm' fun key hkey => ?_
      unfold written
      rw [hall, hwritten.live key hkey, hbegun.live key hkey]
      rfl
    | rollback =>
      refine thenOk hm'.reads_manifest ?_
      dsimp only
      rw [if_neg hm'.not_committed]
      exact (throughout_undo hlaw hm'.reach hm'.manifest hm'.not_committed).mono
        (fun _ hinv => hinv) fun _ _ _ _ => trivial
  exact bind (fun _ _ ht _ => .ret ht trivial) hfinish

theorem reach_crashed (hlaw : config.Lawful order) (hclean : Clean base) (steps : Nat)
    (attempts : List (Nat × Nat)) :
    Reach config base.view (written config order id base writes finish) id
      (crashed config order id base writes finish steps attempts) := by
  have hstart : Reach config base.view (written config order id base writes finish) id
      ((transaction config id writes finish).cut (exec config order id) steps ⟨base, false⟩) :=
    (throughout_transaction hlaw hclean).cut steps
  unfold crashed
  generalize (transaction config id writes finish).cut (exec config order id) steps
    ⟨base, false⟩ = w at hstart
  induction attempts generalizing w with
  | nil => exact hstart
  | cons attempt attempts ih =>
    exact ih _ ((throughout_recoverPending hlaw hstart attempt.1).cut attempt.2)

/-- The values under the live keys once the manifest is gone. -/
theorem Reach.nothing_left {target : View V} {w : Watched V} (h : Reach config base.view target id w)
    (hm : manifestIn config w.view id = none) (hshadow : ∀ slot, w.view (shadowAt id slot) = none)
    (other : TransactionId) :
    w.store.lookup (manifestAt other) = none ∧ ∀ slot, w.store.lookup (shadowAt other slot) = none := by
  refine ⟨?_, fun slot => ?_⟩
  · refine Option.not_isSome_iff_eq_none.mp fun hsome => ?_
    rcases h.only _ (not_live_reserved rfl) hsome with hlock | hmanifest | ⟨slot, heq⟩
    · exact manifestAt_ne_lockAt other hlock
    · rw [hmanifest, show w.store.lookup (manifestAt id) = none from manifestIn_eq_none.mp hm] at hsome
      cases hsome
    · exact manifestAt_ne_shadowAt other id slot heq
  · refine Option.not_isSome_iff_eq_none.mp fun hsome => ?_
    rcases h.only _ (not_live_reserved rfl) hsome with hlock | hmanifest | ⟨slot', heq⟩
    · exact shadowAt_ne_lockAt other slot hlock
    · exact manifestAt_ne_shadowAt id other slot hmanifest.symm
    · rw [heq, show w.store.lookup (shadowAt id slot') = none from hshadow slot'] at hsome
      cases hsome

end Runs

/-- **What recovery makes of a transaction that stopped**: it recovers from just those
stores in which the manifest lists every shadow and misses none. -/
theorem recovers_iff_recorded_and_restorable (config : Config V)
    (order : List String → List String) (hlaw : config.Lawful order) (id : TransactionId)
    (base : Store V) (hclean : Clean base) (writes : List (Write V)) (finish : Finish) (steps : Nat)
    (attempts : List (Nat × Nat)) (polls : Nat) (w : Watched V)
    (hw : w = crashed config order id base writes finish steps attempts) :
    RecoversFrom config order id base writes finish w polls ↔
      Recorded config id w.view ∧ Restorable config id w.view := by
  have hreach : Reach config base.view (written config order id base writes finish) id w :=
    hw ▸ reach_crashed hlaw hclean steps attempts
  obtain ⟨-, hswept⟩ := (throughout_recoverPending hlaw hreach polls).runAll
  constructor
  · rintro ⟨recovered, w', hrun, -, hgone, -⟩
    rw [hrun] at hswept
    refine ⟨(hswept.shadow recovered rfl).mp fun slot => (hgone id).2 slot,
      hswept.found.mp ⟨recovered, rfl⟩⟩
  · rintro ⟨hrecorded, hrestorable⟩
    obtain ⟨recovered, hok⟩ := hswept.found.mpr hrestorable
    have hnone := hswept.manifest recovered hok
    refine ⟨recovered, _, Prod.ext hok rfl, fun key hkey => ?_, ?_, fun polls' => ?_⟩
    · rw [← hswept.committed recovered hok]
      have hcases := hswept.reach.stage
      generalize Watched.committed _ = b at hcases ⊢
      cases hcases with
      | undone _ hlive | done _ hlive => exact hlive key hkey
      | undoable hsome _ _ _ | committed hsome _ _ => cases hnone.symm.trans hsome
    · exact hswept.reach.nothing_left hnone ((hswept.shadow recovered hok).mpr hrecorded)
    · exact (throughout_recoverPending hlaw hswept.reach polls').runAll.2.nothing hnone

/-! ## Crashes that are not recovered from -/

section Concrete

abbrev replaceKey : List (Write (String ⊕ Manifest)) := [.put apiKey (.inl "new") 0]

/-- The process stops when the key has been replaced and the transaction is not yet over. -/
abbrev stoppedOpen : Watched (String ⊕ Manifest) :=
  crashed plainSecrets id firstTransaction apiKeyStore replaceKey .commit 12 []

theorem stoppedOpen_manifest : manifestIn plainSecrets stoppedOpen.view firstTransaction
    = some (.ok ⟨1, .pending, [⟨"gta-claw", "openai", 0, true⟩]⟩) := by
  rfl

theorem stoppedOpen_keys : stoppedOpen.store.keys
    = [apiKey, manifestAt firstTransaction, shadowAt firstTransaction 0] := by
  decide +kernel

theorem recovers_open_transaction :
    RecoversFrom plainSecrets id firstTransaction apiKeyStore replaceKey .commit stoppedOpen 0 := by
  refine (recovers_iff_recorded_and_restorable plainSecrets id plainSecrets_lawful firstTransaction
    apiKeyStore apiKeyStore_clean replaceKey .commit 12 [] 0 stoppedOpen rfl).mpr
    ⟨fun m hm slot hsome => ?_, fun m hm _ e he _ => ?_⟩
  · cases stoppedOpen_manifest.symm.trans hm
    have hmem : shadowAt firstTransaction slot ∈ stoppedOpen.store.keys :=
      AList.mem_keys.mp (AList.lookup_isSome.mp hsome)
    rw [stoppedOpen_keys] at hmem
    have hlive : apiKey.Live := by decide +kernel
    rcases mem_cons.mp hmem with heq | hmem
    · exact absurd heq.symm (hlive.ne_shadowAt firstTransaction slot)
    rcases mem_cons.mp hmem with heq | hmem
    · exact absurd heq.symm (manifestAt_ne_shadowAt firstTransaction firstTransaction slot)
    · exact ⟨_, mem_cons_self, (shadowAt_inj (mem_singleton.mp hmem)).2.symm⟩
  · cases stoppedOpen_manifest.symm.trans hm
    cases mem_singleton.mp he
    decide +kernel

/-- The process stops when the first shadow of a rollback has been deleted. -/
abbrev stoppedDiscarding : Watched (String ⊕ Manifest) :=
  crashed plainSecrets id firstTransaction apiKeyStore replaceKey .rollback 17 []

/-- The process stops when the shadow is written and not yet recorded. -/
abbrev stoppedEnrolling : Watched (String ⊕ Manifest) :=
  crashed plainSecrets id firstTransaction apiKeyStore replaceKey .rollback 9 []

def givesUp (w : Watched (String ⊕ Manifest)) : Bool :=
  match ((recoverPending plainSecrets 0).run.runAll (Watched.exec plainSecrets id firstTransaction) w).1 with
  | .error error => error = .transactionCorrupt "memory"
  | .ok _ => false

def leavesShadow (w : Watched (String ⊕ Manifest)) : Bool :=
  (((recoverPending plainSecrets 0).run.runAll (Watched.exec plainSecrets id firstTransaction)
    w).2.store.lookup (shadowAt firstTransaction 0)).isSome

theorem stopped_discarding_or_enrolling :
    givesUp stoppedDiscarding = true ∧ leavesShadow stoppedEnrolling = true ∧
    ¬ RecoversFrom plainSecrets id firstTransaction apiKeyStore replaceKey .rollback
      stoppedDiscarding 0 ∧
    ¬ RecoversFrom plainSecrets id firstTransaction apiKeyStore replaceKey .rollback
      stoppedEnrolling 0 := by
  have hgives : givesUp stoppedDiscarding = true := by decide +kernel
  have hleaves : leavesShadow stoppedEnrolling = true := by decide +kernel
  refine ⟨hgives, hleaves, ?_, ?_⟩
  · rintro ⟨recovered, w', hrun, -⟩
    unfold givesUp at hgives
    rw [hrun] at hgives
    cases hgives
  · rintro ⟨recovered, w', hrun, -, hgone, -⟩
    unfold leavesShadow at hleaves
    rw [hrun] at hleaves
    rw [(hgone firstTransaction).2 0] at hleaves
    cases hleaves

end Concrete

end GtaClaw.Secret
