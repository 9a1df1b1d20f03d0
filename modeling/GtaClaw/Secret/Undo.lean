import GtaClaw.Lib.Crash
import GtaClaw.Secret.Layout

/-!
# Undoing a transaction that stopped

What one transaction can leave behind is one of four stages: it is undone or was never
begun, its manifest says how to undo it, its manifest is committed, or it is done. As
long as the manifest is there the shadows of its entries hold the values from before,
and they may only go missing when the live keys have those values again.

`Reach` is this together with whether a committed manifest was ever stored, which is
what decides how recovery has to end. Every call of `recover_pending` keeps it.
-/

namespace GtaClaw.Secret

open Lib Prog List Function

variable {V : Type}

/-! ## A store that is watched -/

def committedIn (config : Config V) (f : View V) (id : TransactionId) : Bool :=
  match manifestIn config f id with
  | some (.ok manifest) => manifest.state = .committed
  | _ => false

/-- The store, and whether a committed manifest of the transaction has been stored so far. -/
structure Watched (V : Type) where
  store : Store V
  committed : Bool

abbrev Watched.view (w : Watched V) : View V := w.store.view

def Watched.exec (config : Config V) (order : List String → List String) (id : TransactionId)
    (w : Watched V) (op : BackendOp V) : op.Answer × Watched V :=
  (.ok (w.store.exec order op).1,
    ⟨(w.store.exec order op).2,
      w.committed || committedIn config (Store.view (w.store.exec order op).2) id⟩)

/-! ## Stages -/

/-- The same values under all live keys. -/
def Agree (f g : View V) : Prop := ∀ key : CredentialKey, key.Live → f key = g key

/-- The manifest and the shadows say what was there before. -/
structure Undoable (base : View V) (id : TransactionId) (m : Manifest) (f : View V) : Prop where
  entries : ∀ e ∈ m.entries, ∃ key : CredentialKey, e.liveKey = .ok key ∧ key.Live ∧
    e.existed = (base key).isSome ∧ ∀ v, f (shadowAt id e.slot) = some v → base key = some v
  off : ∀ key : CredentialKey, key.Live → m.holds key = false → f key = base key

/-- No shadow of these entries is missing. -/
def Shadowed (id : TransactionId) (entries : List ManifestEntry) (f : View V) : Prop :=
  ∀ e ∈ entries, e.existed = true → (f (shadowAt id e.slot)).isSome = true

/-- The stages of a transaction, by whether its committed manifest has been stored. -/
inductive Stage (config : Config V) (base target : View V) (id : TransactionId) :
    Bool → View V → Prop where
  | undone {f : View V} (hm : manifestIn config f id = none) (hlive : Agree f base) :
      Stage config base target id false f
  | undoable {f : View V} {m : Manifest} (hm : manifestIn config f id = some (.ok m))
      (hstate : m.state ≠ .committed) (h : Undoable base id m f)
      (hshadows : Shadowed id m.entries f ∨ (m.state = .aborting ∧ Agree f base)) :
      Stage config base target id false f
  | committed {f : View V} {m : Manifest} (hm : manifestIn config f id = some (.ok m))
      (hstate : m.state = .committed) (hlive : Agree f target) : Stage config base target id true f
  | done {f : View V} (hm : manifestIn config f id = none) (hlive : Agree f target) :
      Stage config base target id true f

/-- The reserved namespace has nothing of another transaction. -/
def Only (id : TransactionId) (f : View V) : Prop :=
  ∀ key : CredentialKey, ¬ key.Live → (f key).isSome = true →
    key = lockAt ∨ key = manifestAt id ∨ ∃ slot, key = shadowAt id slot

structure Reach (config : Config V) (base target : View V) (id : TransactionId) (w : Watched V) :
    Prop where
  only : Only id w.view
  stage : Stage config base target id w.committed w.view

/-- Wherever the program is cut off, the transaction is one that can be recovered. -/
abbrev Recoverable (config : Config V) (order : List String → List String) (base target : View V)
    (id : TransactionId) {α : Type} (p : Prog (BackendOp V) BackendOp.Answer α) :
    (α → Watched V → Prop) → Watched V → Prop :=
  p.Throughout (Watched.exec config order id) (Reach config base target id)

variable {config : Config V} {order : List String → List String} {base target : View V}
  {id : TransactionId} {f f' g : View V} {b : Bool} {w w' : Watched V} {m : Manifest}

theorem Agree.refl (f : View V) : Agree f f := fun _ _ => rfl

theorem Agree.trans (h : Agree f f') (h' : Agree f' g) : Agree f g :=
  fun key hkey => (h key hkey).trans (h' key hkey)

theorem not_live_reserved {key : CredentialKey} (h : key.service = transactionService) : ¬ key.Live :=
  not_not.mpr h

section

variable {es : List ManifestEntry}
  (hshadow : ∀ e ∈ es, f' (shadowAt id e.slot) = f (shadowAt id e.slot))
include hshadow

theorem Shadowed.congr : Shadowed id es f' ↔ Shadowed id es f := by
  refine forall_congr' fun e => forall_congr' fun he => forall_congr' fun _ => ?_
  rw [hshadow e he]

/-- Only the shadows of its entries and the live keys that it does not hold matter. -/
theorem Undoable.congr (h : Undoable base id m f) (hes : m.entries = es)
    (hoff : ∀ key : CredentialKey, key.Live → m.holds key = false → f' key = f key) :
    Undoable base id m f' := by
  refine ⟨fun e he => ?_, fun key hkey hnot => (hoff key hkey hnot).trans (h.off key hkey hnot)⟩
  rw [hshadow e (hes ▸ he)]
  exact h.entries e he

end

/-- The values are the same everywhere but under the lock. -/
def SameButLock (f g : View V) : Prop := ∀ key, key ≠ lockAt → f key = g key

theorem SameButLock.agree (h : SameButLock f g) : Agree f g := fun key hkey => h key hkey.ne_lockAt

theorem SameButLock.manifest (h : SameButLock f g) : manifestIn config f id = manifestIn config g id := by
  unfold manifestIn
  rw [h _ (manifestAt_ne_lockAt id)]

theorem SameButLock.shadow (h : SameButLock f g) (slot : UInt32) :
    f (shadowAt id slot) = g (shadowAt id slot) := h _ (shadowAt_ne_lockAt id slot)

/-- A stage is about the manifest, the shadows and the live keys. -/
theorem Stage.congr (h : Stage config base target id b f)
    (hm : manifestIn config f' id = manifestIn config f id)
    (hshadow : ∀ slot, f' (shadowAt id slot) = f (shadowAt id slot)) (hlive : Agree f' f) :
    Stage config base target id b f' := by
  cases h with
  | undone hnone h => exact .undone (hm.trans hnone) (hlive.trans h)
  | undoable hsome hstate h hshadows =>
    refine .undoable (hm.trans hsome) hstate
      (h.congr (fun e _ => hshadow e.slot) rfl fun key hkey _ => hlive key hkey) ?_
    exact hshadows.imp (Shadowed.congr fun e _ => hshadow e.slot).mpr fun hbase =>
      ⟨hbase.1, hlive.trans hbase.2⟩
  | committed hsome hstate h => exact .committed (hm.trans hsome) hstate (hlive.trans h)
  | done hnone h => exact .done (hm.trans hnone) (hlive.trans h)

theorem Stage.steady (h : Stage config base target id b f) : (b || committedIn config f id) = b := by
  unfold committedIn
  cases h with
  | undone hm _ => rw [hm]; rfl
  | undoable hm hstate _ _ =>
    rw [hm]
    exact decide_eq_false hstate
  | committed _ _ _ => rfl
  | done _ _ => rfl

/-! ## Single calls -/

variable {α : Type} {inv : Watched V → Prop} {post : Except SecretStoreError α → Watched V → Prop}
  {key : CredentialKey} {v : Option V}

/-- One write, by which `w` becomes `w'`. -/
structure Wrote (config : Config V) (id : TransactionId) (key : CredentialKey) (v : Option V)
    (w w' : Watched V) : Prop where
  view : w'.view = Function.update w.view key v
  committed : w'.committed = (w.committed || committedIn config w'.view id)

theorem wrote_insert (key : CredentialKey) (v : V) :
    Wrote config id key (some v) w (w.exec config order id (.set key v)).2 :=
  ⟨view_insert _ _ _, rfl⟩

theorem wrote_erase (key : CredentialKey) :
    Wrote config id key none w (w.exec config order id (.delete key)).2 := ⟨view_erase _ _, rfl⟩

section

variable (h : Wrote config id key v w w')
include h

theorem Wrote.of_ne {k : CredentialKey} (hk : k ≠ key) : w'.view k = w.view k := by
  rw [h.view, update_of_ne hk]

theorem Wrote.self : w'.view key = v := by rw [h.view, update_self]

theorem Wrote.either (k : CredentialKey) : w'.view k = v ∨ w'.view k = w.view k := by
  rw [h.view, update_apply]
  split
  · exact .inl rfl
  · exact .inr rfl

theorem Wrote.agree (hkey : ¬ key.Live) : Agree w'.view w.view := by
  intro k hk
  rw [h.view, update_of_ne]
  rintro rfl
  exact hkey hk

end

/-- A reserved key that is written is the transaction's. -/
theorem Only.write (h : Only id w.view) (hw : Wrote config id key v w w')
    (hown : ¬ key.Live → key = lockAt ∨ key = manifestAt id ∨ ∃ slot, key = shadowAt id slot) :
    Only id w'.view := by
  intro k hk hsome
  by_cases heq : k = key
  · rw [heq] at hk ⊢
    exact hown hk
  · rw [hw.of_ne heq] at hsome
    exact h k hk hsome

theorem Wrote.not_committed (hw : Wrote config id key v w w') (h : w.committed = false)
    (hm : manifestIn config w'.view id = some (.ok m)) (hstate : m.state ≠ .committed) :
    w'.committed = false := by
  have hnot : committedIn config w'.view id = false := by
    unfold committedIn
    rw [hm]
    exact decide_eq_false hstate
  rw [hw.committed, h, hnot]
  rfl

/-- A stage in which no committed manifest comes in. -/
theorem Wrote.steady (h : Wrote config id key v w w')
    (hstage : Stage config base target id w.committed w'.view) : w'.committed = w.committed :=
  h.committed.trans hstage.steady

theorem throughout_delete {k : Bool → SecretM V α} (hinv : inv w)
    (h : ∀ w' found, Wrote config id key none w w' →
      (k found).run.Throughout (Watched.exec config order id) inv post w') :
    (ask (.delete key) >>= k).run.Throughout (Watched.exec config order id) inv post w :=
  .call hinv (h _ _ (wrote_erase key))

theorem throughout_lastSet {v : V} {post : Except SecretStoreError Unit → Watched V → Prop}
    (hinv : inv w) (h : ∀ w', Wrote config id key (some v) w w' → inv w' ∧ post (.ok ()) w') :
    (ask (.set key v)).run.Throughout (Watched.exec config order id) inv post w :=
  .call hinv (.ret (h _ (wrote_insert key v)).1 (h _ (wrote_insert key v)).2)

/-! ## Reading -/

section

variable (h : Reach config base target id w)
include h

theorem Reach.exec_eq {op : BackendOp V}
    (hop : (w.store.exec order op).2 = w.store) : (w.exec config order id op).2 = w := by
  unfold Watched.exec
  rw [hop, h.stage.steady]

theorem reads_get (key : CredentialKey) :
    Reads (Watched.exec config order id) (ask (.get key)).run w (.ok (w.view key)) :=
  reads_call (h.exec_eq rfl) reads_ret

theorem reads_accounts :
    Reads (Watched.exec config order id) (reservedAccounts (V := V)).run w
      (.ok (w.store.exec order (.accounts transactionService)).1) :=
  reads_call (h.exec_eq rfl) reads_ret

theorem reads_loadManifest {found : Option Manifest}
    (hm : manifestIn config w.view id = found.map .ok) :
    Reads (Watched.exec config order id) (loadManifest config id).run w (.ok found) := by
  unfold loadManifest
  rw [manifestKey_eq]
  refine Reads.bindOk reads_ret (Reads.bindOk (reads_get h _) ?_)
  unfold manifestIn at hm
  cases hget : w.view (manifestAt id) with rw [hget] at hm
  | none =>
    cases found with
    | none => exact reads_ret
    | some m => cases hm
  | some raw =>
    cases found with
    | none => cases hm
    | some m =>
      dsimp only
      rw [Option.some.inj hm]
      exact reads_ret

end

/-! ## Putting the shadows back -/

/-- A transaction that is rolling back. -/
structure Aborting (config : Config V) (base : View V) (id : TransactionId) (m : Manifest)
    (w : Watched V) : Prop where
  only : Only id w.view
  committed : w.committed = false
  manifest : manifestIn config w.view id = some (.ok m)
  state : m.state = .aborting
  undoable : Undoable base id m w.view
  shadows : Shadowed id m.entries w.view ∨ Agree w.view base

/-- What restoring these entries does. It succeeds just when it finds their shadows. -/
structure Restored (base : View V) (id : TransactionId) (entries : List ManifestEntry)
    (f f' : View V) (result : Except SecretStoreError Unit) : Prop where
  reserved : ∀ key : CredentialKey, ¬ key.Live → f' key = f key
  back : ∀ key : CredentialKey, key.Live → f' key = f key ∨ f' key = base key
  undone : result = .ok () → ∀ e ∈ entries, ∀ key, e.liveKey = .ok key → f' key = base key
  found : result = .ok () ↔ Shadowed id entries f

variable {es : List ManifestEntry} {e : ManifestEntry}

theorem Aborting.reach (h : Aborting config base id m w) : Reach config base target id w := by
  refine ⟨h.only, ?_⟩
  rw [h.committed]
  refine .undoable h.manifest ?_ h.undoable ?_
  · rw [h.state]
    decide
  · rcases h.shadows with hall | hlive
    · exact .inl hall
    · exact .inr ⟨h.state, hlive⟩

theorem Aborting.put_back (h : Aborting config base id m w) (hkey : key.Live)
    (hheld : m.holds key = true) (hw : Wrote config id key (base key) w w') :
    Aborting config base id m w' := by
  have hmanifest : manifestIn config w'.view id = some (.ok m) := by
    rw [hw.view, manifestIn_update_live hkey]
    exact h.manifest
  have hshadow : ∀ e ∈ m.entries, w'.view (shadowAt id e.slot) = w.view (shadowAt id e.slot) :=
    fun _ _ => hw.of_ne (hkey.ne_shadowAt id _).symm
  refine ⟨h.only.write hw fun hnot => absurd hkey hnot,
    hw.not_committed h.committed hmanifest (by rw [h.state]; decide), hmanifest, h.state,
    h.undoable.congr hshadow rfl fun k _ hoff => ?_, ?_⟩
  · refine hw.of_ne ?_
    rintro rfl
    rw [hheld] at hoff
    cases hoff
  · rcases h.shadows with hall | hlive
    · exact .inl ((Shadowed.congr hshadow).mpr hall)
    refine .inr fun k hk => ?_
    by_cases heq : k = key
    · rw [heq, hw.self]
    · rw [hw.of_ne heq]
      exact hlive k hk

theorem restored_nil : Restored base id [] f f (.ok ()) where
  reserved _ _ := rfl
  back _ _ := .inl rfl
  undone _ _ he := absurd he not_mem_nil
  found := ⟨fun _ _ he => absurd he not_mem_nil, fun _ => rfl⟩

theorem throughout_restoreEntry (h : Aborting config base id m w) (he : e ∈ m.entries) :
    Recoverable config order base target id (restoreEntry config id e).run
      (fun result w' => Aborting config base id m w' ∧
        Restored base id [e] w.view w'.view result) w := by
  obtain ⟨key, hkey, hlive, hexisted, hfaithful⟩ := h.undoable.entries e he
  have hheld : m.holds key = true := holds_iff.mpr ⟨e, he, hkey⟩
  have hwritten : ∀ w', Wrote config id key (base key) w w' →
      Shadowed id [e] w.view → Aborting config base id m w' ∧
        Restored base id [e] w.view w'.view (.ok ()) := by
    intro w' hw hshadow
    refine ⟨h.put_back hlive hheld hw, fun k hk => ?_, fun k _ => ?_, fun _ e' he' k hk => ?_,
      fun _ => hshadow, fun _ => rfl⟩
    · exact hw.of_ne fun heq => hk (heq ▸ hlive)
    · by_cases heq : k = key
      · rw [heq, hw.self]
        exact .inr rfl
      · exact .inl (hw.of_ne heq)
    · cases mem_singleton.mp he'
      cases hkey.symm.trans hk
      exact hw.self
  unfold restoreEntry
  rw [hkey, shadowKey_eq]
  refine Reads.thenOk reads_ret ?_
  split_ifs with hex
  · have hreach : Reach config base target id w := h.reach
    refine Reads.thenOk reads_ret (Reads.thenOk (reads_get hreach _) ?_)
    cases hget : w.view (shadowAt id e.slot) with
    | none =>
      refine .ret h.reach ⟨h, fun _ _ => rfl, fun _ _ => .inl rfl, nofun, nofun, fun hall => ?_⟩
      have hsome := hall e mem_cons_self hex
      rw [hget] at hsome
      cases hsome
    | some v =>
      have hbase := hfaithful v hget
      refine throughout_lastSet h.reach fun w' hw => ?_
      rw [← hbase] at hw
      have hdone := hwritten w' hw fun e' he' _ => by
        cases mem_singleton.mp he'
        rw [hget]
        rfl
      exact ⟨hdone.1.reach, hdone⟩
  · have hbase : base key = none := by
      rw [hexisted] at hex
      exact Option.not_isSome_iff_eq_none.mp hex
    refine throughout_delete h.reach fun w' _ hw => ?_
    rw [← hbase] at hw
    have hdone := hwritten w' hw fun e' he' hex' => by
      cases mem_singleton.mp he'
      exact absurd hex' hex
    exact .ret hdone.1.reach hdone

theorem shadowed_cons : Shadowed id (e :: es) f ↔ Shadowed id [e] f ∧ Shadowed id es f := by
  unfold Shadowed
  simp only [mem_cons, not_mem_nil, or_false, forall_eq_or_imp, forall_eq]

theorem Restored.cons
    {result : Except SecretStoreError Unit} (h : Restored base id [e] f f' (.ok ()))
    (h' : Restored base id es f' g result) : Restored base id (e :: es) f g result where
  reserved key hkey := (h'.reserved key hkey).trans (h.reserved key hkey)
  back key hkey := by
    rcases h'.back key hkey with hsame | hbase
    · rw [hsame]
      exact h.back key hkey
    · exact .inr hbase
  undone hok e' he' key hkey := by
    rcases mem_cons.mp he' with rfl | hmem
    · have hdone := h.undone rfl e' mem_cons_self key hkey
      by_cases hlive : key.Live
      · rcases h'.back key hlive with hsame | hbase
        · exact hsame.trans hdone
        · exact hbase
      · exact (h'.reserved key hlive).trans hdone
    · exact h'.undone hok e' hmem key hkey
  found := by
    rw [shadowed_cons, h'.found, Shadowed.congr fun _ _ => h.reserved _ (not_live_reserved rfl)]
    exact ⟨fun hrest => ⟨h.found.mp rfl, hrest⟩, fun hall => hall.2⟩

theorem Restored.stuck {error : SecretStoreError} (h : Restored base id [e] f f' (.error error)) :
    Restored base id (e :: es) f f' (.error error) where
  reserved := h.reserved
  back := h.back
  undone := nofun
  found := by
    refine ⟨nofun, fun hall => ?_⟩
    cases h.found.mpr (shadowed_cons.mp hall).1

theorem throughout_restoreEntries : ∀ (es : List ManifestEntry) {w : Watched V},
    Aborting config base id m w → (∀ e ∈ es, e ∈ m.entries) →
    Recoverable config order base target id (restoreEntries config id es).run
      (fun result w' => Aborting config base id m w' ∧
        Restored base id es w.view w'.view result) w
  | [], _, h, _ => .ret h.reach ⟨h, restored_nil⟩
  | e :: es, w, h, hes => by
    refine Throughout.bindExcept (throughout_restoreEntry h (hes e mem_cons_self)) ?_ ?_
    · rintro _ t - ⟨ht, hrestored⟩
      refine (throughout_restoreEntries es ht (forall_mem_cons.mp hes).2).mono (fun _ hinv => hinv) ?_
      rintro result w' - ⟨hw', hrest⟩
      exact ⟨hw', hrestored.cons hrest⟩
    · rintro error t - ⟨ht, hrestored⟩
      exact ⟨ht, hrestored.stuck⟩

/-! ## Discarding -/

/-- Shadows of these entries are gone, and nothing else has changed. -/
structure Discarded (id : TransactionId) (entries : List ManifestEntry) (f f' : View V) : Prop where
  gone : ∀ e ∈ entries, f' (shadowAt id e.slot) = none
  shadow : ∀ slot, f' (shadowAt id slot) = none ∨ f' (shadowAt id slot) = f (shadowAt id slot)
  unlisted : ∀ slot, (∀ e ∈ entries, e.slot ≠ slot) → f' (shadowAt id slot) = f (shadowAt id slot)
  other : ∀ key, (∀ slot, key ≠ shadowAt id slot) → f' key = f key

theorem Discarded.agree (h : Discarded id es f f') : Agree f' f :=
  fun key hkey => h.other key (hkey.ne_shadowAt id)

/-- Either the transaction is undone but for its bookkeeping, or it is committed. -/
structure Settled (config : Config V) (base target : View V) (id : TransactionId) (m : Manifest)
    (w : Watched V) : Prop where
  reach : Reach config base target id w
  manifest : manifestIn config w.view id = some (.ok m)
  state : m.state ≠ .pending
  live : w.committed = false → Agree w.view base

/-- The shadows of a transaction can go when it is settled. -/
theorem Stage.discard (h : Stage config base target id b f)
    (hm : manifestIn config f id = some (.ok m)) (hstate : m.state ≠ .pending)
    (hbase : b = false → Agree f base) (hm' : manifestIn config f' id = some (.ok m))
    (hshadow : ∀ slot, f' (shadowAt id slot) = none ∨ f' (shadowAt id slot) = f (shadowAt id slot))
    (hlive : Agree f' f) : Stage config base target id b f' := by
  cases h with
  | undone hnone _ | done hnone _ => cases hnone.symm.trans hm
  | undoable hsome hnot hundo _ =>
    cases hsome.symm.trans hm
    have haborting : m.state = .aborting := by
      cases hs : m.state with
      | pending => exact absurd hs hstate
      | committed => exact absurd hs hnot
      | aborting => rfl
    have hagree : Agree f' base := hlive.trans (hbase rfl)
    refine .undoable hm' hnot ⟨fun e he => ?_, fun key hkey _ => hagree key hkey⟩
      (.inr ⟨haborting, hagree⟩)
    obtain ⟨key, hkey, hlivekey, hexisted, hfaithful⟩ := hundo.entries e he
    refine ⟨key, hkey, hlivekey, hexisted, fun v hv => hfaithful v ?_⟩
    rcases hshadow e.slot with hnone | hsame
    · rw [hnone] at hv
      cases hv
    · rw [← hsame]
      exact hv
  | committed hsome hcommitted htarget =>
    cases hsome.symm.trans hm
    exact .committed hm' hcommitted (hlive.trans htarget)

theorem Only.delete (h : Only id w.view) (hw : Wrote config id key none w w') :
    Only id w'.view := by
  intro k hk hsome
  refine h k hk ?_
  rcases hw.either k with hnone | hsame
  · rw [hnone] at hsome
    cases hsome
  · rw [hsame] at hsome
    exact hsome

theorem Settled.delete_shadow (h : Settled config base target id m w) {slot : UInt32}
    (hw : Wrote config id (shadowAt id slot) none w w') :
    Settled config base target id m w' ∧ w'.committed = w.committed := by
  have hmanifest : manifestIn config w'.view id = some (.ok m) := by
    rw [hw.view]
    exact h.manifest
  have hlive : Agree w'.view w.view := hw.agree (not_live_reserved rfl)
  have hstage : Stage config base target id w.committed w'.view :=
    h.reach.stage.discard h.manifest h.state h.live hmanifest (fun _ => hw.either _) hlive
  have hcommitted := hw.steady hstage
  refine ⟨⟨⟨h.reach.only.delete hw, ?_⟩, hmanifest, h.state,
    fun hnot => hlive.trans (h.live (hcommitted ▸ hnot))⟩, hcommitted⟩
  rw [hcommitted]
  exact hstage

theorem throughout_discardShadows : ∀ (es : List ManifestEntry) {w : Watched V},
    Settled config base target id m w →
    Recoverable config order base target id (discardShadows (V := V) id es).run
      (fun result w' => result = .ok () ∧ Settled config base target id m w' ∧
        w'.committed = w.committed ∧ Discarded id es w.view w'.view) w
  | [], w, h => .ret h.reach ⟨rfl, h, rfl, nofun, fun _ => .inr rfl, fun _ _ => rfl, fun _ _ => rfl⟩
  | e :: es, w, h => by
    unfold discardShadows
    rw [shadowKey_eq]
    refine Reads.thenOk reads_ret (throughout_delete h.reach fun t _ hw => ?_)
    obtain ⟨ht, hflag⟩ := h.delete_shadow hw
    refine (throughout_discardShadows es ht).mono (fun _ hinv => hinv) ?_
    rintro result w' - ⟨hok, hw', hcommitted, hrest⟩
    refine ⟨hok, hw', hcommitted.trans hflag, fun e' he' => ?_, fun slot => ?_, fun slot hslot => ?_,
      fun key hkey => ?_⟩
    · rcases mem_cons.mp he' with rfl | hmem
      · rcases hrest.shadow e'.slot with hnone | hsame
        · exact hnone
        · rw [hsame, hw.self]
      · exact hrest.gone e' hmem
    · rcases hrest.shadow slot with hnone | hsame
      · exact .inl hnone
      rw [hsame]
      exact hw.either _
    · rw [hrest.unlisted slot (forall_mem_cons.mp hslot).2]
      refine hw.of_ne fun heq => ?_
      exact hslot e mem_cons_self (shadowAt_inj heq).2.symm
    · rw [hrest.other key hkey]
      exact hw.of_ne (hkey e.slot)

/-- The bookkeeping of the manifest is gone. Shadows that it does not list are still there. -/
structure Cleared (config : Config V) (base target : View V) (id : TransactionId)
    (entries : List ManifestEntry) (w w' : Watched V) : Prop where
  reach : Reach config base target id w'
  manifest : manifestIn config w'.view id = none
  committed : w'.committed = w.committed
  live : Agree w'.view w.view
  gone : ∀ e ∈ entries, w'.view (shadowAt id e.slot) = none
  unlisted : ∀ slot, (∀ e ∈ entries, e.slot ≠ slot) →
    w'.view (shadowAt id slot) = w.view (shadowAt id slot)

/-- A reserved key is deleted and leaves no manifest: the live keys stay as they were. -/
theorem Reach.delete_reserved (h : Reach config base target id w)
    (hw : Wrote config id key none w w') (hkey : ¬key.Live)
    (hnone : manifestIn config w'.view id = none)
    (hbase : w.committed = false → Agree w.view base) :
    Reach config base target id w' ∧ manifestIn config w'.view id = none ∧
      w'.committed = w.committed ∧ Agree w'.view w.view := by
  have hlive : Agree w'.view w.view := hw.agree hkey
  have hstage : Stage config base target id w.committed w'.view := by
    have hcases := h.stage
    generalize w.committed = b at hcases hbase
    cases hcases with
    | undone | undoable => exact .undone hnone (hlive.trans (hbase rfl))
    | committed _ _ htarget | done _ htarget => exact .done hnone (hlive.trans htarget)
  have hcommitted := hw.steady hstage
  refine ⟨⟨h.only.delete hw, ?_⟩, hnone, hcommitted, hlive⟩
  rw [hcommitted]
  exact hstage

theorem throughout_discardBookkeeping (h : Settled config base target id m w) :
    Recoverable config order base target id (discardBookkeeping (V := V) id m).run
      (fun result w' => result = .ok () ∧ Cleared config base target id m.entries w w') w := by
  refine Throughout.bindDone (throughout_discardShadows m.entries h) ?_
  rintro t - ⟨ht, hcommitted, hdiscarded⟩
  rw [manifestKey_eq]
  refine Reads.thenOk reads_ret (throughout_delete ht.reach fun w' _ hw => ?_)
  have hgone : manifestIn config w'.view id = none := by
    rw [hw.view, manifestIn_update_self]
    rfl
  obtain ⟨hreach, hnone, hflag, hlive⟩ :=
    ht.reach.delete_reserved hw (not_live_reserved rfl) hgone ht.live
  have hshadow : ∀ slot, w'.view (shadowAt id slot) = t.view (shadowAt id slot) :=
    fun slot => hw.of_ne (manifestAt_ne_shadowAt id id slot).symm
  refine .ret hreach ⟨rfl, hreach, hnone, hflag.trans hcommitted, hlive.trans hdiscarded.agree,
    fun e he => ?_, fun slot hslot => ?_⟩
  · rw [hshadow]
    exact hdiscarded.gone e he
  · rw [hshadow]
    exact hdiscarded.unlisted slot hslot

/-! ## Undoing -/

/-- How undoing ends: it succeeds just when the shadows of the manifest are there. -/
structure Undone (config : Config V) (base target : View V) (id : TransactionId)
    (entries : List ManifestEntry) (w : Watched V) (result : Except SecretStoreError Unit)
    (w' : Watched V) : Prop where
  found : result = .ok () ↔ Shadowed id entries w.view
  cleared : result = .ok () → ∃ t, Agree t.view base ∧ (∀ slot,
    t.view (shadowAt id slot) = w.view (shadowAt id slot)) ∧ t.committed = false ∧
    Cleared config base target id entries t w'

theorem shadowed_reverse : Shadowed id m.entries.reverse f ↔ Shadowed id m.entries f := by
  unfold Shadowed
  simp only [mem_reverse]

theorem throughout_finishRollback (h : Aborting config base id m w) :
    Recoverable config order base target id (finishRollback config id m).run
      (Undone config base target id m.entries w) w := by
  refine Throughout.bindExcept
    (throughout_restoreEntries m.entries.reverse h fun e he => mem_reverse.mp he) ?_ ?_
  · rintro _ t - ⟨ht, hrestored⟩
    -- every entry is restored, so the live keys are as they were
    have hsettled : Settled config base target id m t := by
      refine ⟨ht.reach, ht.manifest, ?_, fun _ key hkey => ?_⟩
      · rw [ht.state]
        decide
      · by_cases hheld : m.holds key = true
        · obtain ⟨e, he, hlive⟩ := holds_iff.mp hheld
          exact hrestored.undone rfl e (mem_reverse.mpr he) key hlive
        · exact ht.undoable.off key hkey (Bool.eq_false_iff.mpr hheld)
    refine (throughout_discardBookkeeping hsettled).mono (fun _ hinv => hinv) ?_
    rintro result w' - ⟨rfl, hcleared⟩
    refine ⟨⟨fun _ => shadowed_reverse.mp (hrestored.found.mp rfl), fun _ => rfl⟩, fun _ => ?_⟩
    exact ⟨t, hsettled.live ht.committed, fun slot => hrestored.reserved _ (not_live_reserved rfl),
      ht.committed, hcleared⟩
  · rintro error t - ⟨-, hrestored⟩
    refine ⟨⟨nofun, fun hall => ?_⟩, nofun⟩
    cases hrestored.found.mpr (shadowed_reverse.mpr hall)

theorem throughout_saveManifest
    {post : Except SecretStoreError Unit → Watched V → Prop} (hlaw : config.Lawful order)
    (hversion : m.version = manifestVersion) (hinv : inv w)
    (h : ∀ raw w', readManifest config raw = .ok m →
      Wrote config id (manifestAt id) (some raw) w w' → inv w' ∧ post (.ok ()) w') :
    (saveManifest config id m).run.Throughout (Watched.exec config order id) inv post w := by
  obtain ⟨raw, hencode, hread⟩ := hlaw.stored hversion
  unfold saveManifest
  rw [hencode, manifestKey_eq]
  exact Reads.thenOk reads_ret (throughout_lastSet hinv fun w' hw => h raw w' hread hw)

section

variable (hlaw : config.Lawful order) (hreach : Reach config base target id w)
  (hm : manifestIn config w.view id = some (.ok m)) (hstate : m.state ≠ .committed)
include hlaw hreach hm hstate

theorem throughout_markAborting :
    Recoverable config order base target id (markAborting config id m).run
      (fun result t => result = .ok () ∧ Aborting config base id { m with state := .aborting } t ∧
        ∀ slot, t.view (shadowAt id slot) = w.view (shadowAt id slot)) w := by
  obtain ⟨hfalse, hundo, hshadows⟩ : w.committed = false ∧ Undoable base id m w.view ∧
      (Shadowed id m.entries w.view ∨ (m.state = .aborting ∧ Agree w.view base)) := by
    have hcases := hreach.stage
    generalize w.committed = b at hcases
    cases hcases with
    | undone hnone _ | done hnone _ => cases hnone.symm.trans hm
    | undoable hsome _ hundo hshadows =>
      cases hsome.symm.trans hm
      exact ⟨rfl, hundo, hshadows⟩
    | committed hsome hcommitted _ =>
      cases hsome.symm.trans hm
      exact absurd hcommitted hstate
  unfold markAborting
  cases hs : m.state with
  | committed => exact absurd hs hstate
  | aborting =>
    have hsame : { m with state := .aborting } = m := by rw [← hs]
    rw [hsame]
    refine .ret hreach ⟨rfl, ⟨hreach.only, hfalse, hm, hs, hundo, ?_⟩, fun _ => rfl⟩
    exact hshadows.imp_right fun h => h.2
  | pending =>
    have hall : Shadowed id m.entries w.view := by
      rcases hshadows with hall | ⟨haborting, _⟩
      · exact hall
      · cases hs.symm.trans haborting
    have hversion : m.version = manifestVersion := by
      obtain ⟨raw, _, hraw⟩ := Option.map_eq_some_iff.mp hm
      exact version_of_readManifest hraw
    refine throughout_saveManifest hlaw hversion hreach fun raw t hread hw => ?_
    have hmanifest : manifestIn config t.view id = some (.ok { m with state := .aborting }) := by
      rw [hw.view, manifestIn_update_self, Option.map_some, hread]
    have hshadow : ∀ slot, t.view (shadowAt id slot) = w.view (shadowAt id slot) :=
      fun slot => hw.of_ne (manifestAt_ne_shadowAt id id slot).symm
    have hlive : Agree t.view w.view := hw.agree (not_live_reserved rfl)
    have hundo' : Undoable base id m t.view :=
      hundo.congr (fun e _ => hshadow e.slot) rfl fun key hkey _ => hlive key hkey
    have haborting : Aborting config base id { m with state := .aborting } t :=
      ⟨hreach.only.write hw fun _ => .inr (.inl rfl), hw.not_committed hfalse hmanifest nofun,
        hmanifest, rfl, ⟨hundo'.entries, hundo'.off⟩,
        .inl ((Shadowed.congr fun e _ => hshadow e.slot).mpr hall)⟩
    exact ⟨haborting.reach, rfl, haborting, hshadow⟩

theorem throughout_undo :
    Recoverable config order base target id (undo config id m).run
      (Undone config base target id m.entries w) w := by
  refine Throughout.bindDone (throughout_markAborting hlaw hreach hm hstate) ?_
  rintro t - ⟨ht, hshadow⟩
  refine (throughout_finishRollback ht).mono (fun _ hinv => hinv) ?_
  rintro result w' - hundone
  refine ⟨hundone.found.trans (Shadowed.congr fun e _ => hshadow e.slot), fun hok => ?_⟩
  obtain ⟨t', hbase, hkept, hfalse, hcleared⟩ := hundone.cleared hok
  exact ⟨t', hbase, fun slot => (hkept slot).trans (hshadow slot), hfalse, hcleared⟩

end

end GtaClaw.Secret
