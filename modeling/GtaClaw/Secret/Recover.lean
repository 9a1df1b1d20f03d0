import GtaClaw.Secret.Undo

/-!
# What recovery comes to

`recover_pending` from anything that one transaction can leave behind. It succeeds just
when the shadows of a manifest that is not committed are all there, and it then leaves
the live keys as they have to be. What it leaves of the bookkeeping are the shadows that
the manifest did not list: the pass over the orphans spares those of a transaction whose
manifest was there when it began.
-/

namespace GtaClaw.Secret

open Lib Prog Throughout Watched List

variable {V : Type}

/-! ## The accounts it finds -/

section Recovery

variable {config : Config V} {order : List String → List String} {base target : View V}
  {id : TransactionId} {w w' t : Watched V} {m : Manifest}

section

variable (hlaw : config.Lawful order) (h : Only id w.view)
include hlaw h

theorem account_cases {account : String}
    (hmem : account ∈ (w.store.exec order (.accounts transactionService)).1) :
    account = lockAccount ∨
    (account = manifestAccount id ∧ (w.view (manifestAt id)).isSome = true) ∨
    ∃ slot, account = shadowAccount id slot := by
  obtain ⟨key, hservice, rfl, hsome⟩ := (mem_accounts hlaw.listed).mp hmem
  rcases h key (not_live_reserved hservice) hsome with rfl | rfl | ⟨slot, rfl⟩
  · exact .inl rfl
  · exact .inr (.inl ⟨rfl, hsome⟩)
  · exact .inr (.inr ⟨slot, rfl⟩)

theorem manifestId_of_account {account : String}
    {other : TransactionId} (hmem : account ∈ (w.store.exec order (.accounts transactionService)).1)
    (hid : manifestId account = some other) :
    other = id ∧ (w.view (manifestAt id)).isSome = true := by
  rcases account_cases hlaw h hmem with rfl | ⟨rfl, hsome⟩ | ⟨slot, rfl⟩
  · cases manifestId_lockAccount.symm.trans hid
  · cases (manifestId_manifestAccount id).symm.trans hid
    exact ⟨rfl, hsome⟩
  · cases (manifestId_shadowAccount id slot).symm.trans hid

theorem knownIds_none (hm : manifestIn config w.view id = none) :
    knownIds (w.store.exec order (.accounts transactionService)).1 = [] := by
  have hempty : (w.store.exec order (.accounts transactionService)).1.filterMap manifestId = [] := by
    refine eq_nil_iff_forall_not_mem.mpr fun other hmem => ?_
    obtain ⟨account, haccount, hid⟩ := mem_filterMap.mp hmem
    have hsome := (manifestId_of_account hlaw h haccount hid).2
    rw [manifestIn_eq_none.mp hm] at hsome
    cases hsome
  unfold knownIds
  rw [hempty]
  rfl

end

theorem eq_singleton_of_nodup {α : Type} {a : α} {l : List α} (hnodup : l.Nodup) (hmem : a ∈ l)
    (hall : ∀ x ∈ l, x = a) : l = [a] := by
  have hreplicate := eq_replicate_of_mem hall
  rw [hreplicate] at hnodup hmem ⊢
  have hle := nodup_replicate.mp hnodup
  have hpos : l.length ≠ 0 := fun hzero => by
    rw [hzero] at hmem
    cases hmem
  rw [show l.length = 1 by omega]
  rfl

theorem knownIds_some (hlaw : config.Lawful order) (h : Only id w.view)
    (hm : manifestIn config w.view id = some (.ok m)) :
    knownIds (w.store.exec order (.accounts transactionService)).1 = [id] := by
  have hsome : (w.view (manifestAt id)).isSome = true := by
    obtain ⟨raw, hraw, _⟩ := Option.map_eq_some_iff.mp hm
    rw [hraw]
    rfl
  have hsingle : ((w.store.exec order (.accounts transactionService)).1.filterMap manifestId).dedup
      = [id] := by
    refine eq_singleton_of_nodup (nodup_dedup _) ?_ fun other hmem => ?_
    · refine mem_dedup.mpr (mem_filterMap.mpr ⟨manifestAccount id, ?_,
        manifestId_manifestAccount id⟩)
      exact (mem_accounts hlaw.listed).mpr ⟨manifestAt id, rfl, rfl, hsome⟩
    · obtain ⟨account, haccount, hid⟩ := mem_filterMap.mp (mem_dedup.mp hmem)
      exact (manifestId_of_account hlaw h haccount hid).1
  unfold knownIds
  rw [hsingle]
  rfl

/-! ## Orphans -/

theorem reads_discardOrphans (h : Reach config base target id w) : ∀ accounts : List String,
    (∀ account ∈ accounts, ∀ other, shadowId account = some other → other = id) →
    Reads (exec config order id) (discardOrphans (V := V) [id] accounts).run w (.ok ())
  | [], _ => reads_ret
  | account :: accounts, hall => by
    have hrest := reads_discardOrphans h accounts
      (forall_mem_cons.mp hall).2
    unfold discardOrphans
    split
    · exact hrest
    rename_i other hother
    rw [if_pos (mem_singleton.mpr (hall account mem_cons_self other hother))]
    exact hrest

theorem Reach.delete_orphan (h : Reach config base target id w)
    (hm : manifestIn config w.view id = none) {slot : UInt32}
    (hw : Wrote config id (shadowAt id slot) none w w') :
    Reach config base target id w' ∧ manifestIn config w'.view id = none ∧
      w'.committed = w.committed ∧ Agree w'.view w.view := by
  refine h.delete_reserved hw (not_live_reserved rfl) ?_ fun hfalse => ?_
  · rw [hw.view]
    exact hm
  · have hcases := h.stage
    rw [hfalse] at hcases
    cases hcases with
    | undone _ hagree => exact hagree
    | undoable hsome _ _ _ => cases hm.symm.trans hsome

/-- Shadows under these accounts are gone, and nothing else has changed. -/
structure Orphaned (config : Config V) (base target : View V) (id : TransactionId)
    (accounts : List String) (w w' : Watched V) : Prop where
  reach : Reach config base target id w'
  manifest : manifestIn config w'.view id = none
  committed : w'.committed = w.committed
  live : Agree w'.view w.view
  gone : ∀ slot, shadowAccount id slot ∈ accounts → w'.view (shadowAt id slot) = none
  shadow : ∀ slot, w'.view (shadowAt id slot) = none ∨
    w'.view (shadowAt id slot) = w.view (shadowAt id slot)

theorem throughout_discardOrphans : ∀ (accounts : List String) {w : Watched V},
    Reach config base target id w → manifestIn config w.view id = none →
    (∀ account ∈ accounts, shadowId account = none ∨ ∃ slot, account = shadowAccount id slot) →
    Recoverable config order base target id (discardOrphans (V := V) [] accounts).run
      (fun result w' => result = .ok () ∧ Orphaned config base target id accounts w w') w
  | [], _, h, hm, _ => .ret h ⟨rfl, h, hm, rfl, Agree.refl _, nofun, fun _ => .inr rfl⟩
  | account :: accounts, w, h, hm, hall => by
    have hrest : ∀ a ∈ accounts, shadowId a = none ∨ ∃ slot, a = shadowAccount id slot :=
      (forall_mem_cons.mp hall).2
    unfold discardOrphans
    rcases hall account mem_cons_self with hnone | ⟨slot, rfl⟩
    · rw [hnone]
      refine (throughout_discardOrphans accounts h hm hrest).mono (fun _ hinv => hinv) ?_
      rintro result w' - ⟨hok, hdone⟩
      refine ⟨hok, { hdone with gone := fun slot hslot => ?_ }⟩
      rcases mem_cons.mp hslot with heq | hmem
      · rw [← heq, shadowId_shadowAccount] at hnone
        cases hnone
      · exact hdone.gone slot hmem
    · rw [shadowId_shadowAccount]
      dsimp only
      rw [if_neg not_mem_nil, show reservedKey (shadowAccount id slot) = .ok (shadowAt id slot)
        from shadowKey_eq id slot]
      refine Reads.thenOk reads_ret (throughout_delete h fun t _ hw => ?_)
      obtain ⟨ht, htm, htflag, htlive⟩ := h.delete_orphan hm hw
      refine (throughout_discardOrphans accounts ht htm hrest).mono (fun _ hinv => hinv) ?_
      rintro result w' - ⟨hok, hdone⟩
      refine ⟨hok, hdone.reach, hdone.manifest, hdone.committed.trans htflag,
        hdone.live.trans htlive, fun slot' hslot => ?_, fun slot' => ?_⟩
      · rcases mem_cons.mp hslot with heq | hmem
        · have hkey : shadowAt id slot' = shadowAt id slot := CredentialKey.ext rfl heq
          rcases hdone.shadow slot' with hgone | hsame
          · exact hgone
          · rw [hsame, hkey, hw.self]
        · exact hdone.gone slot' hmem
      · rcases hdone.shadow slot' with hgone | hsame
        · exact .inl hgone
        rw [hsame]
        exact hw.either _

/-! ## The sweep -/

/-- The shadows that undoing the transaction needs are there. -/
def Restorable (config : Config V) (id : TransactionId) (f : View V) : Prop :=
  ∀ m, manifestIn config f id = some (.ok m) → m.state ≠ .committed → Shadowed id m.entries f

/-- As long as there is a manifest, it lists every shadow. -/
def Recorded (config : Config V) (id : TransactionId) (f : View V) : Prop :=
  ∀ m, manifestIn config f id = some (.ok m) → ∀ slot, (f (shadowAt id slot)).isSome = true →
    ∃ e ∈ m.entries, e.slot = slot

/-- How recovery ends. -/
structure Swept (config : Config V) (base target : View V) (id : TransactionId) (w : Watched V)
    (result : Except SecretStoreError (List RecoveredTransaction)) (w' : Watched V) : Prop where
  reach : Reach config base target id w'
  found : (∃ recovered, result = .ok recovered) ↔ Restorable config id w.view
  manifest : ∀ recovered, result = .ok recovered → manifestIn config w'.view id = none
  committed : ∀ recovered, result = .ok recovered → w'.committed = w.committed
  shadow : ∀ recovered, result = .ok recovered →
    ((∀ slot, w'.view (shadowAt id slot) = none) ↔ Recorded config id w.view)
  nothing : manifestIn config w.view id = none → result = .ok []

/-- What resolving the manifest `m` comes to. -/
structure Resolved (config : Config V) (base target : View V) (id : TransactionId) (m : Manifest)
    (w : Watched V) {α : Type} (result : Except SecretStoreError α) (w' : Watched V) : Prop where
  found : (∃ x, result = .ok x) ↔ (m.state ≠ .committed → Shadowed id m.entries w.view)
  cleared : ∀ x, result = .ok x → ∃ t, t.committed = w.committed ∧
    (∀ slot, t.view (shadowAt id slot) = w.view (shadowAt id slot)) ∧
    Cleared config base target id m.entries t w'

section

variable (h : Reach config base target id w) (hm : manifestIn config w.view id = some (.ok m))
include h hm

theorem Reach.committed_of (hstate : m.state = .committed) :
    w.committed = true := by
  have hsteady := h.stage.steady
  unfold committedIn at hsteady
  rw [hm] at hsteady
  dsimp only at hsteady
  rw [decide_eq_true hstate, Bool.or_true] at hsteady
  exact hsteady.symm

theorem Reach.not_committed_of (hstate : m.state ≠ .committed) :
    w.committed = false := by
  have hcases := h.stage
  generalize w.committed = b at hcases
  cases hcases with
  | undone _ _ => rfl
  | undoable _ _ _ _ => rfl
  | committed hsome hcommitted _ =>
    cases hsome.symm.trans hm
    exact absurd hcommitted hstate
  | done hnone _ => cases hnone.symm.trans hm

end

section

variable (hlaw : config.Lawful order) (h : Reach config base target id w)
  (hm : manifestIn config w.view id = some (.ok m))
include hlaw h hm

theorem throughout_resolve :
    Recoverable config order base target id (resolve config id m).run
      (Resolved config base target id m w) w := by
  unfold resolve
  split_ifs with hstate
  · have hsettled : Settled config base target id m w :=
      ⟨h, hm, by rw [hstate]; decide, fun hfalse => by cases hfalse.symm.trans (h.committed_of hm hstate)⟩
    refine bindDone (throughout_discardBookkeeping hsettled) fun t ht hcleared => ?_
    refine .ret ht ⟨⟨fun _ hnot => absurd hstate hnot, fun _ => ⟨_, rfl⟩⟩, fun _ _ => ?_⟩
    exact ⟨w, rfl, fun _ => rfl, hcleared⟩
  · refine bindExcept (throughout_undo hlaw h hm hstate) ?_ ?_
    · rintro _ t ht hundone
      refine .ret ht ⟨⟨fun _ _ => hundone.found.mp rfl, fun _ => ⟨_, rfl⟩⟩, fun _ _ => ?_⟩
      obtain ⟨t', -, hkept, hfalse, hcleared⟩ := hundone.cleared rfl
      exact ⟨t', hfalse.trans (h.not_committed_of hm hstate).symm, hkept, hcleared⟩
    · rintro error t ht hundone
      refine ⟨⟨nofun, fun hall => ?_⟩, nofun⟩
      cases hundone.found.mpr (hall hstate)

theorem throughout_recoverAll :
    Recoverable config order base target id (recoverAll config [id]).run
      (Resolved config base target id m w) w := by
  have hload : manifestIn config w.view id = (some m).map .ok := hm
  refine Reads.thenOk (reads_loadManifest h hload) ?_
  refine bindExcept (throughout_resolve hlaw h hm) ?_ ?_
  · rintro outcome t ht hresolved
    refine .ret ht ⟨⟨fun _ => hresolved.found.mp ⟨_, rfl⟩, fun _ => ⟨_, rfl⟩⟩, fun _ _ => ?_⟩
    exact hresolved.cleared outcome rfl
  · rintro error t ht hresolved
    refine ⟨⟨nofun, fun hall => ?_⟩, nofun⟩
    obtain ⟨_, hno⟩ := hresolved.found.mpr hall
    cases hno

end

theorem restorable_iff (hm : manifestIn config w.view id = some (.ok m)) :
    Restorable config id w.view ↔ (m.state ≠ .committed → Shadowed id m.entries w.view) := by
  refine ⟨fun hall => hall m hm, fun hall m' hm' => ?_⟩
  cases hm.symm.trans hm'
  exact hall

/-- What is left of the shadows are those that the manifest does not list. -/
theorem Cleared.shadows_gone (h : Cleared config base target id m.entries t w')
    (hm : manifestIn config w.view id = some (.ok m))
    (hkept : ∀ slot, t.view (shadowAt id slot) = w.view (shadowAt id slot)) :
    (∀ slot, w'.view (shadowAt id slot) = none) ↔ Recorded config id w.view := by
  constructor
  · intro hgone m' hm' slot hsome
    cases hm.symm.trans hm'
    by_contra hunlisted
    push Not at hunlisted
    have hsame := (h.unlisted slot hunlisted).trans (hkept slot)
    rw [hgone slot] at hsame
    rw [← hsame] at hsome
    cases hsome
  · intro hrecorded slot
    by_cases hlisted : ∃ e ∈ m.entries, e.slot = slot
    · obtain ⟨e, he, rfl⟩ := hlisted
      exact h.gone e he
    have hnone : w.view (shadowAt id slot) = none := by
      refine Option.not_isSome_iff_eq_none.mp fun hsome => hlisted (hrecorded m hm slot hsome)
    push Not at hlisted
    rw [h.unlisted slot hlisted, hkept, hnone]

theorem throughout_sweep (hlaw : config.Lawful order) (h : Reach config base target id w) :
    Recoverable config order base target id (sweep config).run (Swept config base target id w) w := by
  refine Reads.thenOk (reads_accounts h) ?_
  cases hm : manifestIn config w.view id with
  | none =>
    have hkinds : ∀ account ∈ (w.store.exec order (.accounts transactionService)).1,
        shadowId account = none ∨ ∃ slot, account = shadowAccount id slot := by
      intro account hmem
      rcases account_cases hlaw h.only hmem with rfl | ⟨rfl, -⟩ | hslot
      · exact .inl shadowId_lockAccount
      · exact .inl (shadowId_manifestAccount id)
      · exact .inr hslot
    rw [knownIds_none hlaw h.only hm]
    refine Reads.thenOk reads_ret (bindDone (throughout_discardOrphans _ h hm hkinds)
      fun t ht hdone => ?_)
    refine .ret ht ⟨ht, ⟨fun _ m hsome => ?_, fun _ => ⟨_, rfl⟩⟩, fun _ _ => hdone.manifest,
      fun _ _ => hdone.committed, fun _ _ => ⟨fun _ m hsome => ?_, fun _ slot => ?_⟩, fun _ => rfl⟩
    · cases hm.symm.trans hsome
    · cases hm.symm.trans hsome
    · rcases hdone.shadow slot with hnone | hsame
      · exact hnone
      cases hsome : w.view (shadowAt id slot) with
      | none => exact hsame.trans hsome
      | some v => exact hdone.gone slot ((mem_accounts hlaw.listed).mpr
          ⟨shadowAt id slot, rfl, rfl, Option.isSome_of_eq_some hsome⟩)
  | some found =>
    obtain ⟨m, rfl⟩ : ∃ m, found = .ok m := by
      have hcases := h.stage
      generalize w.committed = b at hcases
      cases hcases with
      | undone hnone _ | done hnone _ => cases hnone.symm.trans hm
      | undoable hsome _ _ _ | committed hsome _ _ =>
        exact ⟨_, (Option.some.inj (hsome.symm.trans hm)).symm⟩
    have hshadows : ∀ account ∈ (w.store.exec order (.accounts transactionService)).1,
        ∀ other, shadowId account = some other → other = id := by
      intro account hmem other hother
      rcases account_cases hlaw h.only hmem with rfl | ⟨rfl, -⟩ | ⟨slot, rfl⟩
      · cases shadowId_lockAccount.symm.trans hother
      · cases (shadowId_manifestAccount id).symm.trans hother
      · exact (Option.some.inj ((shadowId_shadowAccount id slot).symm.trans hother)).symm
    rw [knownIds_some hlaw h.only hm]
    refine bindExcept (throughout_recoverAll hlaw h hm) ?_ ?_
    · rintro recovered t ht hresolved
      obtain ⟨s, hflag, hkept, hcleared⟩ := hresolved.cleared recovered rfl
      refine Reads.thenOk (reads_discardOrphans ht _ hshadows) (.ret ht ?_)
      refine ⟨ht, ⟨fun _ => (restorable_iff hm).mpr (hresolved.found.mp ⟨_, rfl⟩),
        fun _ => ⟨_, rfl⟩⟩, fun _ _ => hcleared.manifest,
        fun _ _ => hcleared.committed.trans hflag,
        fun _ _ => hcleared.shadows_gone hm hkept, fun hnone => ?_⟩
      cases hm.symm.trans hnone
    · rintro error t ht hresolved
      refine ⟨ht, ⟨nofun, fun hall => ?_⟩, nofun, nofun, nofun, fun hnone => ?_⟩
      · obtain ⟨_, hno⟩ := hresolved.found.mpr ((restorable_iff hm).mp hall)
        cases hno
      · cases hm.symm.trans hnone

/-! ## The lock -/

variable {α : Type}

/-- Only the lock has changed. -/
structure LockChanged (w w' : Watched V) : Prop where
  view : SameButLock w'.view w.view
  committed : w'.committed = w.committed

theorem Only.lock {f f' : View V} (h : Only id f) (hsame : SameButLock f' f) : Only id f' := by
  intro key hkey hsome
  by_cases heq : key = lockAt
  · exact .inl heq
  · rw [hsame key heq] at hsome
    exact h key hkey hsome

/-- Whether the lock is held makes no difference to the transaction. -/
theorem Reach.lock (h : Reach config base target id w) {v : Option V}
    (hw : Wrote config id lockAt v w w') : Reach config base target id w' ∧ LockChanged w w' := by
  have hsame : SameButLock w'.view w.view := fun key hkey => hw.of_ne hkey
  have hstage : Stage config base target id w.committed w'.view :=
    h.stage.congr hsame.manifest hsame.shadow hsame.agree
  have hcommitted := hw.steady hstage
  refine ⟨⟨h.only.lock hsame, ?_⟩, hsame, hcommitted⟩
  rw [hcommitted]
  exact hstage

theorem LockChanged.trans (h : LockChanged w t) (h' : LockChanged t w') : LockChanged w w' :=
  ⟨fun key hkey => (h'.view key hkey).trans (h.view key hkey), h'.committed.trans h.committed⟩

theorem exec_claim_free (h : w.view lockAt = none) (v : V) :
    (w.exec config order id (.insertIfAbsent lockAt v)).1 = .ok true ∧
      Wrote config id lockAt (some v) w (w.exec config order id (.insertIfAbsent lockAt v)).2 := by
  unfold exec
  rw [exec_insertIfAbsent_free h]
  exact ⟨rfl, view_insert _ _ _, rfl⟩

theorem throughout_claimLoop_free (h : Reach config base target id w) (hfree : w.view lockAt = none)
    (holder : V) (breakStale : Bool) (polls : Nat) :
    Recoverable config order base target id (claimLoop lockAt holder breakStale polls).run
      (fun result w' => result = .ok () ∧ LockChanged w w') w := by
  obtain ⟨hanswer, hw⟩ : (w.exec config order id (.insertIfAbsent lockAt holder)).1 = .ok true ∧
    Wrote config id lockAt (some holder) w _ := exec_claim_free hfree holder
  obtain ⟨hreach, hchanged⟩ := h.lock hw
  cases polls with
  | zero | succ polls =>
    refine .call h ?_
    rw [hanswer]
    exact .ret hreach ⟨rfl, hchanged⟩

/-- Recovery gets the lock, whoever has left it behind. -/
theorem throughout_claimLoop (h : Reach config base target id w) (holder : V) (polls : Nat) :
    Recoverable config order base target id (claimLoop lockAt holder true polls).run
      (fun result w' => result = .ok () ∧ LockChanged w w') w := by
  cases hlock : w.view lockAt with
  | none => exact throughout_claimLoop_free h hlock holder true polls
  | some held =>
    have hanswer : w.exec config order id (.insertIfAbsent lockAt holder) = (.ok false, w) := by
      unfold exec
      rw [exec_insertIfAbsent_held hlock]
      exact Prod.ext rfl (congrArg (Watched.mk w.store) h.stage.steady)
    induction polls with
    | zero =>
      refine .call h ?_
      rw [hanswer]
      refine throughout_delete h fun t _ hw => ?_
      obtain ⟨ht, hchanged⟩ := h.lock hw
      obtain ⟨hanswer', hw'⟩ : (t.exec config order id (.insertIfAbsent lockAt holder)).1 = .ok true ∧
        Wrote config id lockAt (some holder) t _ := exec_claim_free hw.self holder
      obtain ⟨hreach, hchanged'⟩ := ht.lock hw'
      refine .call ht ?_
      rw [hanswer']
      exact .ret hreach ⟨rfl, hchanged.trans hchanged'⟩
    | succ polls ih =>
      refine .call h ?_
      rw [hanswer]
      exact ih

/-- The lock is released at the end, whatever the body comes to. -/
theorem throughout_holding {body : SecretM V α}
    {first post : Except SecretStoreError α → Watched V → Prop}
    (hbody : Recoverable config order base target id body.run first w)
    (hpost : ∀ result t w', first result t → LockChanged t w' → w'.view lockAt = none →
      Reach config base target id w' → post result w') :
    Recoverable config order base target id (holding body).run post w := by
  refine bind (fun result t ht hfirst => ?_) hbody
  refine .call ht ?_
  have hw : Wrote config id lockAt none t (t.exec config order id (.delete lockAt)).2 := wrote_erase lockAt
  obtain ⟨hreach, hchanged⟩ := ht.lock hw
  exact .ret hreach (hpost result t _ hfirst hchanged hw.self hreach)

theorem SameButLock.restorable {f g : View V} (h : SameButLock f g) :
    Restorable config id f ↔ Restorable config id g := by
  unfold Restorable Shadowed
  simp only [h.manifest, h.shadow]

theorem SameButLock.recorded {f g : View V} (h : SameButLock f g) :
    Recorded config id f ↔ Recorded config id g := by
  unfold Recorded
  simp only [h.manifest, h.shadow]

/-- **Recovery**, from anything that a transaction can leave behind. -/
theorem throughout_recoverPending (hlaw : config.Lawful order) (h : Reach config base target id w)
    (polls : Nat) :
    Recoverable config order base target id (recoverPending config polls).run
      (Swept config base target id w) w := by
  refine bindDone (Reads.thenOk reads_ret (throughout_claimLoop h _ polls)) fun t ht hclaimed => ?_
  refine throughout_holding (throughout_sweep hlaw ht) fun result t' w' hswept hreleased _ hreach => ?_
  refine ⟨hreach, hswept.found.trans hclaimed.view.restorable, fun l hl => ?_, fun l hl => ?_,
    fun l hl => ?_, fun hnone => hswept.nothing ?_⟩
  · rw [hreleased.view.manifest]
    exact hswept.manifest l hl
  · exact hreleased.committed.trans ((hswept.committed l hl).trans hclaimed.committed)
  · simp only [hreleased.view.shadow]
    exact (hswept.shadow l hl).trans hclaimed.view.recorded
  · rw [hclaimed.view.manifest]
    exact hnone

end Recovery

end GtaClaw.Secret
