import GtaClaw.Goal.Versions

/-!
# What every client does

Each operation saves only new goals and successors of versions that it has read, and a
progress note is saved once. This is read off the text of the operations, one rule for
each call; `Pool.holds_after` then makes it a fact about every interleaving.
-/

namespace GtaClaw.Goal

open Lib GtaClaw.Runtime Shared List

/-- A client that records a note has not saved it yet. -/
def Idle (i : Nat) (op : GoalOp) (s : Shared) : Prop := op.isNote = true → s.ownWrites i = []

/-- What other clients leave as it is: the versions, and what this one has written. -/
structure Keeps (i : Nat) (s s' : Shared) : Prop where
  writes : s.writes <+: s'.writes
  own : s'.ownWrites i = s.ownWrites i

/-- What has become of a note when its operation returns. -/
def Noted (i : Nat) (op : GoalOp) (goalId : GoalId) (s : Shared) : Except GoalError GoalRecord → Prop
  | .ok record => s.ownWrites i = [⟨i, op, record⟩] ∧ record.goalId = goalId
  | .error e => s.ownWrites i = [] ∨
      ∃ error record, e = .port error ∧ s.ownWrites i = [⟨i, op, record⟩] ∧ record.goalId = goalId

def goalSpec (config : GoalConfig) : Pool.Spec Shared GoalOp GoalCall GoalResult where
  valid := Shared.Valid
  fresh n s := s.ownWrites n = []
  rely i _ := Keeps i
  may i op s c := Idle i op s ∧
    match c with
    | .save record => Offer config s op record
    | .compactClosedHistory .. => op.isNote = false
    | _ => True
  post i op result s :=
    match op, result with
    | .recordProgress goalId _, .goal result => Noted i op goalId s result
    | .recordProgress .., .compacted _ => False
    | _, _ => True

section Frames

variable {config : GoalConfig} {i j : Nat} {op : GoalOp} {s s' : Shared} {r : GoalRecord}

theorem Keeps.refl (i : Nat) (s : Shared) : Keeps i s s := ⟨prefix_rfl, rfl⟩

theorem Keeps.trans {s'' : Shared} (h : Keeps i s s') (h' : Keeps i s' s'') : Keeps i s s'' :=
  ⟨h.writes.trans h'.writes, h'.own.trans h.own⟩

theorem Idle.mono (h : Idle i op s) (hk : Keeps i s s') : Idle i op s' :=
  fun hnote => hk.own.trans (h hnote)

theorem Shared.Seen.mono (h : s.Seen r) (hk : s.writes <+: s'.writes) : s'.Seen r := by
  obtain ⟨w, hw, hr⟩ := h
  exact ⟨w, hk.subset hw, hr⟩

theorem Offer.mono (h : Offer config s op r) (hk : s.writes <+: s'.writes) :
    Offer config s' op r := by
  cases h with
  | fresh hop goalId objective now => exact .fresh hop goalId objective now
  | again hop hseen => exact .again hop (hseen.mono hk)
  | close hop hseen status hclosed now => exact .close hop (hseen.mono hk) status hclosed now
  | note text note hseen now => exact .note text note (hseen.mono hk) now

theorem ownWrites_record (store : GoalStore) (written : List GoalRecord) :
    (s.record i op store written).ownWrites i = s.ownWrites i ++ written.map (⟨i, op, ·⟩) := by
  unfold ownWrites record
  rw [filter_append]
  refine congrArg (s.writes.filter _ ++ ·) (filter_eq_self.mpr fun w hw => ?_)
  obtain ⟨r, -, rfl⟩ := mem_map.mp hw
  exact decide_eq_true rfl

variable (store : StoreConfig)

section

variable (i : Nat) (op : GoalOp) (s : Shared)

/-- A save is refused, or it is made; then it may still be reported as a failure. -/
theorem save_cases (fault : Option Fault) (r : GoalRecord) :
    (∃ e, s.save store i op fault r = (.error e, s)) ∨ ∃ after answer,
      s.store.save store r = .ok after ∧ s.save store i op fault r =
        (answer, s.record i op after [r]) := by
  unfold save
  cases hsave : s.store.save store r with
  | error e =>
    refine .inl ?_
    split
    · exact ⟨_, rfl⟩
    · exact ⟨_, rfl⟩
    · exact ⟨_, rfl⟩
    · contradiction
    · contradiction
  | ok after =>
    cases fault with
    | none => exact .inr ⟨after, _, rfl, rfl⟩
    | some fault =>
      cases fault with
      | refused e | stopped goals e => exact .inl ⟨_, rfl⟩
      | committed e => exact .inr ⟨after, _, rfl, rfl⟩

theorem compact_cases (fault : Option Fault) (sessionId : SessionId) (keep : Nat) :
    (s.compact store i op fault sessionId keep).2 = s ∨ ∃ goals,
      (s.compact store i op fault sessionId keep).2
        = s.record i op (s.store.compactClosedHistory store sessionId keep goals).2.store
          (s.store.compactClosedHistory store sessionId keep goals).2.written := by
  unfold compact
  split
  · exact .inl rfl
  · exact .inr ⟨_, rfl⟩
  · exact .inr ⟨_, rfl⟩
  · exact .inr ⟨_, rfl⟩

/-- **What a call leaves**: nothing is changed, or versions were added. -/
theorem exec_cases (env : GoalEnv) (c : GoalCall) :
    (exec store i op s env c).2 = s ∨ ∃ after written,
      (exec store i op s env c).2 = s.record i op after written ∧
      ((∃ r, c = .save r ∧ s.store.save store r = .ok after ∧ written = [r]) ∨
        ∃ sessionId keep goals, c = .compactClosedHistory sessionId keep ∧
          after = (s.store.compactClosedHistory store sessionId keep goals).2.store ∧
          written = (s.store.compactClosedHistory store sessionId keep goals).2.written) := by
  cases c with
  | now | nextGoalOrdinal | load | listForSession => exact .inl rfl
  | save r =>
    rcases save_cases store i op s env.fault r with ⟨e, hsave⟩ | ⟨after, answer, hok, hsave⟩
    · exact .inl (congrArg Prod.snd hsave)
    · exact .inr ⟨after, [r], congrArg Prod.snd hsave, .inl ⟨r, rfl, hok, rfl⟩⟩
  | compactClosedHistory sessionId keep =>
    rcases compact_cases store i op s env.fault sessionId keep with hsame | ⟨goals, hrecord⟩
    · exact .inl hsame
    · exact .inr ⟨_, _, hrecord, .inr ⟨sessionId, keep, goals, rfl, rfl, rfl⟩⟩

end

theorem exec_keeps (hne : i ≠ j) (store : StoreConfig) (env : GoalEnv) (c : GoalCall) :
    Keeps j s (exec store i op s env c).2 := by
  rcases exec_cases store i op s env c with hsame | ⟨after, written, hrecord, -⟩
  · rw [hsame]
    exact .refl j s
  · rw [hrecord]
    refine ⟨prefix_append _ _, ?_⟩
    have hnone : (written.map fun r => (⟨i, op, r⟩ : Write)).filter (·.task = j) = [] := by
      refine filter_eq_nil_iff.mpr fun w hw heq => ?_
      obtain ⟨r, -, rfl⟩ := mem_map.mp hw
      exact hne (of_decide_eq_true heq)
    unfold ownWrites record
    rw [filter_append, hnone, append_nil]

theorem exec_valid (h : s.Valid) {store : StoreConfig} {env : GoalEnv} {c : GoalCall}
    (hmay : (goalSpec config).may i op s c) : (exec store i op s env c).2.Valid := by
  rcases exec_cases store i op s env c with
    hsame | ⟨after, written, hrecord, ⟨r, rfl, hsave, rfl⟩ | ⟨sessionId, keep, goals, rfl, rfl, rfl⟩⟩
  · rw [hsame]
    exact h
  · rw [hrecord]
    exact h.save hmay.2 hmay.1 hsave
  · rw [hrecord]
    refine Shared.Valid.compactGoals hmay.2 _ _ ?_
    change Shared.Valid ⟨s.store, s.writes ++ []⟩
    rw [append_nil]
    exact h

end Frames

/-! ## One rule for each call -/

/-- The rest of an operation keeps to the specification. -/
abbrev SafeFor {α : Type} (config : GoalConfig) (store : StoreConfig) (i : Nat) (op : GoalOp)
    (post : α → Shared → Prop) (p : GoalProg α) (s : Shared) : Prop :=
  Prog.Safe (Shared.exec store i op) Shared.Valid (Keeps i) ((goalSpec config).may i op) post p s

section Rules

variable {config : GoalConfig} {store : StoreConfig} {i : Nat} {op : GoalOp} {s : Shared}
  {α β : Type} {post : Except GoalError β → Shared → Prop}

theorem safe_bind {m : GoalM α} {f : α → GoalM β} {first : Except GoalError α → Shared → Prop}
    (hs : s.Valid) (h : SafeFor config store i op first m.run s)
    (hok : ∀ a t, t.Valid → first (.ok a) t → SafeFor config store i op post (f a).run t)
    (herror : ∀ e t, t.Valid → first (.error e) t →
      SafeFor config store i op post (.ret (.error e)) t) :
    SafeFor config store i op post (m >>= f).run s :=
  Prog.Safe.bindExcept (fun t _ => .refl i t) (fun _ _ _ ht hmay => exec_valid ht hmay) hs h hok
    herror

theorem safe_check {result : Except GoalError α} {f : α → GoalM β}
    (hok : ∀ a, result = .ok a → SafeFor config store i op post (f a).run s)
    (herror : ∀ e, SafeFor config store i op post (.ret (.error e)) s) :
    SafeFor config store i op post ((ExceptT.mk (.ret result) : GoalM α) >>= f).run s := by
  cases result with
  | error e => exact herror e
  | ok a => exact hok a rfl

/-- What is known after a call that reads. -/
structure Later (i : Nat) (op : GoalOp) (s t : Shared) : Prop where
  idle : Idle i op t
  writes : s.writes <+: t.writes

theorem Later.mono {t t' : Shared} (h : Later i op s t) (hk : Keeps i t t') : Later i op s t' :=
  ⟨h.idle.mono hk, h.writes.trans hk.writes⟩

theorem safe_read {c : GoalCall} {f : c.Answer → α} {found : α → Shared → Prop}
    (hread : ∀ t env, (exec store i op t env c).2 = t)
    (hmay : ∀ t, Idle i op t → (goalSpec config).may i op t c)
    (hfound : ∀ t t' env, t.Valid → Keeps i t t' → found (f (exec store i op t env c).1) t')
    (hidle : Idle i op s) :
    SafeFor config store i op (fun a t => Later i op s t ∧ found a t) (.call c fun x => .ret (f x)) s := by
  intro t ht hst
  refine ⟨hmay t (hidle.mono hst), fun env => ?_⟩
  rw [hread]
  intro t' _ htt
  exact ⟨⟨(hidle.mono hst).mono htt, hst.writes.trans htt.writes⟩, hfound t t' env ht htt⟩

theorem safe_now (hidle : Idle i op s) :
    SafeFor config store i op (fun _ t => Later i op s t ∧ True) GoalM.now.run s :=
  safe_read (fun _ _ => rfl) (fun _ h => ⟨h, trivial⟩) (fun _ _ _ _ _ => trivial) hidle

theorem safe_nextGoalOrdinal (sessionId : SessionId) (hidle : Idle i op s) :
    SafeFor config store i op (fun _ t => Later i op s t ∧ True) (GoalM.nextGoalOrdinal sessionId).run s :=
  safe_read (fun _ _ => rfl) (fun _ h => ⟨h, trivial⟩) (fun _ _ _ _ _ => trivial) hidle

def Loaded (goalId : GoalId) (result : Except GoalError (Option GoalRecord)) (s : Shared) : Prop :=
  ∀ r, result = .ok (some r) → s.Seen r ∧ r.goalId = goalId

theorem safe_load (goalId : GoalId) (hidle : Idle i op s) :
    SafeFor config store i op (fun a t => Later i op s t ∧ Loaded goalId a t) (GoalM.load goalId).run s := by
  refine safe_read (fun _ _ => rfl) (fun _ h => ⟨h, trivial⟩) (fun t t' env ht hk r hr => ?_) hidle
  change ofPort (read env.fault (.ok (t.store.load goalId))) = .ok (some r) at hr
  cases hfault : env.fault with rw [hfault] at hr
  | some fault => cases hr
  | none =>
    obtain ⟨hseen, hgoal⟩ := Shared.Seen.of_load ht (Except.ok.inj hr)
    exact ⟨hseen.mono hk.writes, hgoal⟩

def Listed (result : Except GoalError (List GoalRecord)) (s : Shared) : Prop :=
  ∀ rs, result = .ok rs → ∀ r ∈ rs, s.Seen r

theorem listGoals_seen (hs : s.Valid) {goalIds : List String} {rs : List GoalRecord}
    (h : s.store.listGoals store goalIds = .ok rs) : ∀ r ∈ rs, s.Seen r := by
  intro r hr
  obtain ⟨k, -, hlookup⟩ := (GoalStore.mem_listGoals h).mp hr
  refine (Shared.Seen.of_load hs (g := r.goalId) ?_).1
  unfold GoalStore.load
  rw [hs.keyed k r hlookup]
  exact hlookup

theorem safe_listForSession (sessionId : SessionId) (hidle : Idle i op s) :
    SafeFor config store i op (fun a t => Later i op s t ∧ Listed a t)
      (GoalM.listForSession sessionId).run s := by
  refine safe_read (fun _ _ => rfl) (fun _ h => ⟨h, trivial⟩) (fun t t' env ht hk rs hrs r hr => ?_)
    hidle
  change ofPort (read env.fault (t.store.listForSession store sessionId)) = .ok rs at hrs
  cases hfault : env.fault with rw [hfault] at hrs
  | some fault => cases hrs
  | none =>
    cases hlist : t.store.listForSession store sessionId with rw [hlist] at hrs
    | error e => cases hrs
    | ok found =>
      cases hrs
      exact (listGoals_seen ht hlist r hr).mono hk.writes

theorem Idle.of_not_note (hop : op.isNote = false) : Idle i op s :=
  fun hnote => by cases hop.symm.trans hnote

/-- An operation that records no note may return anything. -/
abbrev SafeOp {α : Type} (config : GoalConfig) (store : StoreConfig) (i : Nat) (op : GoalOp)
    (m : GoalM α) (s : Shared) : Prop :=
  SafeFor config store i op (fun _ _ => True) m.run s

theorem safe_anything {a : α} : SafeFor config store i op (fun _ _ => True) (.ret a) s :=
  fun _ _ _ => trivial

theorem safe_save {r : GoalRecord} (hop : op.isNote = false) (hoffer : Offer config s op r) :
    SafeFor config store i op (fun _ t => s.writes <+: t.writes) (GoalM.save r).run s := by
  intro t _ hst
  refine ⟨⟨.of_not_note hop, hoffer.mono hst.writes⟩, fun env t' _ hk => ?_⟩
  refine (hst.writes.trans ?_).trans hk.writes
  rcases exec_cases store i op t env (.save r) with hsame | ⟨after, written, hrecord, -⟩
  · rw [hsame]
  · rw [hrecord]
    exact prefix_append _ _

/-- What has become of a note when its save returns. -/
def SavedNote (i : Nat) (op : GoalOp) (r : GoalRecord) (s : Shared) : Except GoalError Unit → Prop
  | .ok () => s.ownWrites i = [⟨i, op, r⟩]
  | .error e => s.ownWrites i = [] ∨ ∃ error, e = .port error ∧ s.ownWrites i = [⟨i, op, r⟩]

theorem safe_saveNote {r : GoalRecord} (hnote : op.isNote = true) (hidle : Idle i op s)
    (hoffer : Offer config s op r) :
    SafeFor config store i op (fun a t => SavedNote i op r t a) (GoalM.save r).run s := by
  intro t _ hst
  have hidleT := hidle.mono hst
  refine ⟨⟨hidleT, hoffer.mono hst.writes⟩, fun env t' _ hk => ?_⟩
  have hown := hidleT hnote
  change Keeps i (t.save store i op env.fault r).2 t' at hk
  change SavedNote i op r t' (ofPort (t.save store i op env.fault r).1)
  rcases save_cases store i op t env.fault r with ⟨e, hsave⟩ | ⟨after, answer, -, hsave⟩
  · rw [hsave] at hk ⊢
    exact .inl (hk.own.trans hown)
  · rw [hsave] at hk ⊢
    have hone : t'.ownWrites i = [⟨i, op, r⟩] := by
      rw [hk.own, ownWrites_record, hown]
      rfl
    cases answer with
    | ok => exact hone
    | error e => exact .inr ⟨e, rfl, hone⟩

/-! ## The operations -/

variable {goalId : GoalId}

theorem safe_activeGoal (sessionId : SessionId) (hs : s.Valid) (hidle : Idle i op s) :
    SafeFor config store i op
      (fun a t => Later i op s t ∧ ∀ r, a = .ok (some r) → t.Seen r ∧ r.status = .active)
      (activeGoal sessionId).run s := by
  refine safe_bind hs (safe_listForSession sessionId hidle) (fun rs t _ hlisted => ?_)
    fun e t _ hlisted => ?_
  · intro t' _ hk
    refine ⟨hlisted.1.mono hk, fun r hr => ?_⟩
    have hfind : rs.reverse.find? (·.status = .active) = some r := Except.ok.inj hr
    have hmem : r ∈ rs := mem_reverse.mp (mem_of_find?_eq_some hfind)
    have hactive := find?_some hfind
    exact ⟨(hlisted.2 rs rfl r hmem).mono hk.writes, of_decide_eq_true hactive⟩
  · intro t' _ hk
    exact ⟨hlisted.1.mono hk, by simp⟩

section

variable (hs : s.Valid)
include hs

/-- The last steps of a replacement: save the record and supersede the goal that was
active. -/
theorem safe_replace {previous : Option GoalRecord} {r : GoalRecord} {now : Timestamp}
    (hop : op.isNote = false) (hoffer : Offer config s op r)
    (hseen : ∀ r, previous = some r → s.Seen r) :
    SafeOp config store i op (do GoalM.save r; supersede previous now; return r) s := by
  refine safe_bind hs (safe_save hop hoffer) (fun _ t ht hwrites => ?_) fun _ _ _ _ => safe_anything
  cases previous with
  | none => exact safe_anything
  | some p =>
    have hclose : Offer config t op (p.closed .superseded now) :=
      .close hop ((hseen p rfl).mono hwrites) .superseded rfl now
    exact safe_bind ht (safe_save hop hclose) (fun _ _ _ _ => safe_anything)
      fun _ _ _ _ => safe_anything

theorem safe_set {sessionId : SessionId} {objective : String}
    (hreplaces : op.replaces = some sessionId) :
    SafeOp config store i op (set config sessionId goalId objective) s := by
  have hop := op.isNote_of_replaces hreplaces
  refine safe_check (fun objective _ => ?_) fun _ => safe_anything
  refine safe_bind hs (safe_now (.of_not_note hop)) (fun now t ht hidle => ?_)
    fun _ _ _ _ => safe_anything
  refine safe_bind ht (safe_activeGoal sessionId ht hidle.1.idle) (fun previous t ht hactive => ?_)
    fun _ _ _ _ => safe_anything
  exact safe_replace ht hop (.fresh hreplaces goalId objective now)
    fun r hr => (hactive.2 r (congrArg _ hr)).1

theorem safe_start {sessionId : SessionId} {objective : String}
    (hreplaces : op.replaces = some sessionId) :
    SafeOp config store i op (start config sessionId objective) s := by
  have hop := op.isNote_of_replaces hreplaces
  refine safe_check (fun objective _ => ?_) fun _ => safe_anything
  refine safe_bind hs (safe_nextGoalOrdinal sessionId (.of_not_note hop)) (fun ordinal t ht hidle => ?_)
    fun _ _ _ _ => safe_anything
  split
  · exact safe_anything
  rename_i goalId _
  refine safe_bind ht (safe_load goalId hidle.1.idle) (fun found t ht hloaded => ?_)
    fun _ _ _ _ => safe_anything
  cases found with
  | none => exact safe_set ht hreplaces
  | some orphan =>
    dsimp only
    split
    · refine safe_bind ht (safe_activeGoal sessionId ht hloaded.1.idle)
        (fun previous t ht hactive => ?_) fun _ _ _ _ => safe_anything
      have hseen := (hloaded.2 orphan rfl).1.mono hactive.1.writes
      exact safe_replace ht hop (.again hop hseen) fun r hr => (hactive.2 r (congrArg _ hr)).1
    · exact safe_set ht hreplaces

end

theorem safe_requireActive (goalId : GoalId) (hs : s.Valid) (hidle : Idle i op s) :
    SafeFor config store i op
      (fun a t => Later i op s t ∧
        ∀ r, a = .ok r → t.Seen r ∧ r.goalId = goalId ∧ r.status = .active)
      (requireActive goalId).run s := by
  refine safe_bind hs (safe_load goalId hidle) (fun found t _ hloaded => ?_)
    fun e t _ hloaded t' _ hk => ?_
  · cases found with
    | none => exact fun t' _ hk => ⟨hloaded.1.mono hk, by simp⟩
    | some record =>
      obtain ⟨hseen, hgoal⟩ := hloaded.2 record rfl
      dsimp only
      split_ifs with hopen
      · exact fun t' _ hk => ⟨hloaded.1.mono hk, by simp⟩
      intro t' _ hk
      refine ⟨hloaded.1.mono hk, fun r hr => ?_⟩
      cases Except.ok.inj hr
      exact ⟨hseen.mono hk.writes, hgoal, by_contra fun hne => hopen (decide_eq_true hne)⟩
  · exact ⟨hloaded.1.mono hk, by simp⟩

theorem safe_close {status : GoalStatus} (hop : op.isNote = false) (hs : s.Valid) :
    SafeOp config store i op (close goalId status) s := by
  unfold close
  split_ifs with hclosed
  · exact safe_anything
  rw [Bool.not_eq_true', Bool.not_eq_false] at hclosed
  refine safe_bind hs (safe_requireActive goalId hs (.of_not_note hop)) (fun record t ht hactive => ?_)
    fun _ _ _ _ => safe_anything
  refine safe_bind ht (safe_now hactive.1.idle) (fun now t ht hnow => ?_)
    fun _ _ _ _ => safe_anything
  have hseen := (hactive.2 record rfl).1.mono hnow.1.writes
  exact safe_bind ht (safe_save hop (.close hop hseen status hclosed now))
    (fun _ _ _ _ => safe_anything) fun _ _ _ _ => safe_anything

theorem safe_recordProgress {note : String} (hs : s.Valid)
    (hidle : Idle i (.recordProgress goalId note) s) :
    SafeFor config store i (.recordProgress goalId note)
      (fun a t => Noted i (.recordProgress goalId note) goalId t a)
      (recordProgress config goalId note).run s := by
  have hfailed : ∀ e t, Idle i (.recordProgress goalId note) t →
      SafeFor config store i (.recordProgress goalId note)
        (fun a t => Noted i (.recordProgress goalId note) goalId t a) (.ret (.error e)) t :=
    fun e t ht t' _ hk => .inl (ht.mono hk rfl)
  refine safe_check (fun text _ => ?_) fun e => hfailed e s hidle
  refine safe_bind hs (safe_requireActive goalId hs hidle) (fun record t ht hactive => ?_)
    fun e t _ hlater => hfailed e t hlater.1.idle
  refine safe_bind ht (safe_now hactive.1.idle) (fun now t ht hnow => ?_)
    fun e t _ hlater => hfailed e t hlater.1.idle
  obtain ⟨hseen, rfl, -⟩ := hactive.2 record rfl
  have hgoal := (progressed_frame record text config.maxProgressEntries now).1
  refine safe_bind ht (safe_saveNote rfl hnow.1.idle
    (.note note text (hseen.mono hnow.1.writes) now)) (fun _ t _ hsaved => ?_) fun e t _ hsaved => ?_
  · exact fun t' _ hk => ⟨hk.own.trans hsaved, hgoal⟩
  · intro t' _ hk
    rcases hsaved with hnone | ⟨error, rfl, hone⟩
    · exact .inl (hk.own.trans hnone)
    · exact .inr ⟨error, _, rfl, hk.own.trans hone, hgoal⟩

theorem safe_goal {post : Except GoalError GoalRecord → Shared → Prop} {m : GoalM GoalRecord}
    (hs : s.Valid) (h : SafeFor config store i op post m.run s)
    (hpost : ∀ a t t', post a t → Keeps i t t' → (goalSpec config).post i op (.goal a) t') :
    SafeFor config store i op ((goalSpec config).post i op) (.goal <$> m.run) s :=
  Prog.Safe.bind (fun t _ => .refl i t) (fun _ _ _ ht hmay => exec_valid ht hmay) hs h
    fun a t _ ha t' _ hk => hpost a t t' ha hk

end Rules

/-- **Every client keeps to the specification.** -/
theorem goal_sound (config : GoalConfig) (store : StoreConfig) :
    Pool.Sound (goalSpec config) (GoalOp.body config) (exec store) where
  refl i _ s _ := .refl i s
  trans _ _ _ _ _ h h' := h.trans h'
  keeps _ _ _ _ _ h hmay := exec_valid h hmay
  frames i op j _ s env c hne _ _ := exec_keeps hne store env c
  untouched i op n s env c hne hfresh _ := (exec_keeps hne store env c).own.trans hfresh
  starts n op s hs hfresh := by
    cases op with
    | set sessionId goalId objective =>
      exact safe_goal hs (safe_set hs rfl) fun _ _ _ _ _ => trivial
    | start sessionId objective => exact safe_goal hs (safe_start hs rfl) fun _ _ _ _ _ => trivial
    | recordProgress goalId note =>
      refine safe_goal hs (safe_recordProgress hs fun _ => hfresh) fun a _ _ ha hk => ?_
      cases a with
      | ok record => exact ⟨hk.own.trans ha.1, ha.2⟩
      | error e =>
        rcases ha with hnone | ⟨error, record, he, hone, hgoal⟩
        · exact .inl (hk.own.trans hnone)
        · exact .inr ⟨error, record, he, hk.own.trans hone, hgoal⟩
    | close goalId status => exact safe_goal hs (safe_close rfl hs) fun _ _ _ _ _ => trivial
    | compactClosedHistory sessionId keep =>
      exact fun t _ _ => ⟨⟨.of_not_note rfl, rfl⟩, fun _ _ _ _ => trivial⟩

/-- **In every interleaving** the clients keep to it. -/
theorem goal_holds (config : GoalConfig) (store : StoreConfig) (acts : List GoalAct) :
    Pool.Holds (goalSpec config) (exec store)
      (after (GoalWorld.step config store) GoalWorld.new acts) :=
  Pool.holds_after (goal_sound config store) valid_new (fun _ => rfl) acts

end GtaClaw.Goal
