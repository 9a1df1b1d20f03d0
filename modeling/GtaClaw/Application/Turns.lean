import GtaClaw.Lib.Run
import Mathlib.Tactic

/-!
# Concurrent turns of one session

A turn loads the revision of its session, runs, and then stages a session record
and a turn record at the next revision. A record that is not newer than the stored
one is refused when it is staged. The commit does not look again, so what it
applies may be stale by then.

Where every commit still finds an older record, the revisions that turns return are
1, 2, 3 and so on, and so are the ordinals in the table.
-/

namespace GtaClaw.Application

open Lib

structure SessionRecord where
  revision : Nat
  turns : Nat
deriving DecidableEq

structure TurnRecord where
  ordinal : Nat
  prompt : String
  response : String

/-- The part of the table that belongs to the session. -/
structure SessionTable where
  session : Option SessionRecord
  turns : List TurnRecord

/-- The revision of a session, zero where it was never recorded. -/
def SessionTable.revision (table : SessionTable) : Nat := table.session.elim 0 (·.revision)

/-- What a `MemoryPersistenceTransaction` has staged. -/
structure Transaction where
  sessions : List SessionRecord
  turns : List TurnRecord

namespace Transaction

/-- `upsert_session`; a stale record is a conflict. -/
def upsertSession (tx : Transaction) (table : SessionTable) (record : SessionRecord) :
    Option Transaction :=
  match table.session with
  | some stored =>
    if record.revision ≤ stored.revision then none
    else some { tx with sessions := tx.sessions ++ [record] }
  | none => some { tx with sessions := tx.sessions ++ [record] }

def appendTurn (tx : Transaction) (record : TurnRecord) : Transaction :=
  { tx with turns := tx.turns ++ [record] }

def commit (tx : Transaction) (table : SessionTable) : SessionTable where
  session := tx.sessions.foldl (fun stored record =>
    some ⟨record.revision, stored.elim 0 (·.turns) + record.turns⟩) table.session
  turns := table.turns ++ tx.turns

end Transaction

/-- Where a call of `run_turn` stands. -/
inductive Phase where
  /-- The session is open at this revision; the ports and the engine are at work. -/
  | running (loaded : Nat)
  | staged (revision : Nat) (tx : Transaction)
  | appended (revision : Nat) (tx : Transaction)
  | over

structure World where
  table : SessionTable
  calls : List Phase

def World.init : World := ⟨⟨none, []⟩, []⟩

/-- One step of one call. -/
inductive Act where
  | openSession
  | upsertSession (i : Nat)
  | appendTurn (i : Nat) (prompt response : String)
  | commit (i : Nat)
  /-- A port or the engine fails, or the future is dropped. -/
  | stop (i : Nat)

namespace World

def set (w : World) (i : Nat) (phase : Phase) : World := { w with calls := w.calls.set i phase }

/-- The step, with the revision that the call returns if it returns `Ok`. -/
def step (w : World) : Act → Option Nat × World
  | .openSession => (none, { w with calls := w.calls ++ [.running w.table.revision] })
  | .upsertSession i =>
    match w.calls[i]? with
    | some (.running loaded) =>
      match Transaction.upsertSession ⟨[], []⟩ w.table ⟨loaded + 1, 1⟩ with
      | some tx => (none, w.set i (.staged (loaded + 1) tx))
      | none => (none, w.set i .over)
    | _ => (none, w)
  | .appendTurn i prompt response =>
    match w.calls[i]? with
    | some (.staged revision tx) =>
      (none, w.set i (.appended revision (tx.appendTurn ⟨revision, prompt, response⟩)))
    | _ => (none, w)
  | .commit i =>
    match w.calls[i]? with
    | some (.appended revision tx) =>
      (some revision, { table := tx.commit w.table, calls := w.calls.set i .over })
    | _ => (none, w)
  | .stop i => (none, w.set i .over)

/-- A commit finds an older record than the one it brings. -/
def Fresh (w : World) : Act → Bool
  | .commit i =>
    match w.calls[i]? with
    | some (.appended revision _) => w.table.revision < revision
    | _ => true
  | _ => true

end World

/-- The revisions that turns have returned, in the order of their commits. -/
def returned (past : List (Act × Option Nat)) : List Nat := past.filterMap (·.2)

/-- Turns have different revisions, and the table counts exactly them. -/
def Counted (past : List (Act × Option Nat)) (table : SessionTable) : Prop :=
  let n := (returned past).length
  (returned past).Nodup ∧ table.turns.map (·.ordinal) = List.range' 1 n
    ∧ table.session = if n = 0 then none else some ⟨n, n⟩

/-! ## Commits in turn -/

/-- What a call may still bring to a table at revision `n`. -/
def Phase.Good (n : Nat) : Phase → Prop
  | .running loaded => loaded ≤ n
  | .staged revision tx => revision ≤ n + 1 ∧ tx = ⟨[⟨revision, 1⟩], []⟩
  | .appended revision tx =>
    revision ≤ n + 1 ∧ ∃ prompt response, tx = ⟨[⟨revision, 1⟩], [⟨revision, prompt, response⟩]⟩
  | .over => True

structure Inv (past : List (Act × Option Nat)) (w : World) : Prop where
  returns : returned past = List.range' 1 w.table.revision
  ordinals : w.table.turns.map (·.ordinal) = List.range' 1 w.table.revision
  stored : ∀ record, w.table.session = some record → record.turns = record.revision ∧ 0 < record.turns
  phases : ∀ (i : Nat) (phase : Phase), w.calls[i]? = some phase → phase.Good w.table.revision

variable {past : List (Act × Option Nat)} {w : World} {a : Act}

section Step

variable (h : Inv past w)
include h

/-- A step that leaves the table alone. -/
theorem Inv.calls {calls : List Phase}
    (hcalls : ∀ (i : Nat) (phase : Phase), calls[i]? = some phase → phase.Good w.table.revision) :
    Inv (past ++ [(a, none)]) { w with calls } := by
  refine ⟨?_, h.ordinals, h.stored, hcalls⟩
  rw [returned, filterMap_concat_of_none rfl]
  exact h.returns

theorem Inv.set {i : Nat} {phase : Phase} (hgood : phase.Good w.table.revision) :
    Inv (past ++ [(a, none)]) (w.set i phase) := by
  refine h.calls fun j phase' hj => ?_
  rcases getElem?_set_some hj with ⟨-, rfl⟩ | ⟨-, hold⟩
  · exact hgood
  · exact h.phases j phase' hold

/-- A commit that finds an older record finds the one before its own. -/
theorem Inv.commit {i revision : Nat} {tx : Transaction}
    (hi : w.calls[i]? = some (.appended revision tx)) (hfresh : w.table.revision < revision) :
    Inv (past ++ [(a, some revision)]) ⟨tx.commit w.table, w.calls.set i .over⟩ := by
  obtain ⟨hle, prompt, response, rfl⟩ := h.phases i _ hi
  obtain rfl : revision = w.table.revision + 1 := by omega
  have hrevision : (Transaction.commit ⟨[⟨w.table.revision + 1, 1⟩],
      [⟨w.table.revision + 1, prompt, response⟩]⟩ w.table).revision = w.table.revision + 1 := rfl
  have hturns : w.table.session.elim 0 (·.turns) = w.table.revision := by
    unfold SessionTable.revision
    cases hsession : w.table.session with
    | none => rfl
    | some record => exact (h.stored record hsession).1
  refine ⟨?_, ?_, ?_, ?_⟩
  · rw [returned, filterMap_concat_of_some (f := Prod.snd) rfl, hrevision, List.range'_1_concat,
      Nat.add_comm 1]
    exact congrArg (· ++ _) h.returns
  · rw [hrevision, List.range'_1_concat, Nat.add_comm 1, ← h.ordinals]
    exact List.map_append
  · intro record hrecord
    cases hrecord
    dsimp only
    omega
  · intro j phase hj
    rcases getElem?_set_some hj with ⟨-, rfl⟩ | ⟨-, hold⟩
    · trivial
    · have hgood := h.phases j phase hold
      cases phase <;> simp only [Phase.Good] at hgood ⊢ <;> grind

theorem Inv.step (hfresh : w.Fresh a = true) : Inv (past ++ [(a, (w.step a).1)]) (w.step a).2 := by
  fun_cases World.step w a with
  | case1 =>
    refine h.calls fun i phase hi => ?_
    rcases getElem?_concat_some hi with hold | ⟨-, rfl⟩
    · exact h.phases i phase hold
    · exact le_rfl
  | case2 i loaded hi tx htx =>
    have hloaded : loaded ≤ w.table.revision := h.phases i _ hi
    refine h.set ⟨by omega, ?_⟩
    unfold Transaction.upsertSession at htx
    grind
  | case5 i prompt response revision tx hi =>
    obtain ⟨hle, rfl⟩ := h.phases i _ hi
    exact h.set ⟨hle, prompt, response, rfl⟩
  | case7 i revision tx hi =>
    simp only [World.Fresh, hi] at hfresh
    exact h.commit hi (of_decide_eq_true hfresh)
  | case3 | case9 => exact h.set trivial
  | case4 | case6 | case8 => exact h.calls h.phases

theorem Inv.counted : Counted past w.table := by
  have hlength : (returned past).length = w.table.revision := by rw [h.returns, List.length_range']
  unfold Counted
  rw [hlength, h.returns]
  refine ⟨List.nodup_range', h.ordinals, ?_⟩
  unfold SessionTable.revision
  cases hsession : w.table.session with
  | none => rfl
  | some record =>
    obtain ⟨hturns, hpos⟩ := h.stored record hsession
    obtain ⟨revision, turns⟩ := record
    cases hturns
    exact (if_neg (Nat.ne_of_gt hpos)).symm

end Step

/-- **Turns whose commits all find an older record never overwrite each other.** -/
theorem turns_counted (acts : List Act) (hfresh : Along World.step (·.Fresh ·) .init acts) :
    Counted (history World.step .init acts) (after World.step .init acts).table := by
  refine Inv.counted (history_inv (I := Inv) (fun _ _ _ h => h.step) acts [] .init ?_ hfresh)
  exact ⟨rfl, rfl, nofun, nofun⟩

/-- Two turns, one after the other. -/
def inTurn : List Act :=
  [.openSession, .upsertSession 0, .appendTurn 0 "a" "b", .commit 0,
    .openSession, .upsertSession 1, .appendTurn 1 "c" "d", .commit 1]

theorem turns_counted_inTurn :
    Along World.step (·.Fresh ·) .init inTurn
      ∧ Counted (history World.step .init inTurn) (after World.step .init inTurn).table :=
  ⟨by decide, turns_counted inTurn (by decide)⟩

/-- Two turns that both stage before either commits. -/
def overlapping : List Act :=
  [.openSession, .openSession, .upsertSession 0, .upsertSession 1,
    .appendTurn 0 "a" "b", .appendTurn 1 "c" "d", .commit 0, .commit 1]

/-- Both return revision 1, and the record says one revision and two turns. -/
theorem staged_turns_share_a_revision :
    returned (history World.step .init overlapping) = [1, 1]
      ∧ (after World.step .init overlapping).table.session = some ⟨1, 2⟩
      ∧ ¬Counted (history World.step .init overlapping) (after World.step .init overlapping).table := by
  refine ⟨by decide, by decide, fun h => ?_⟩
  exact absurd h.1 (by decide)

end GtaClaw.Application
