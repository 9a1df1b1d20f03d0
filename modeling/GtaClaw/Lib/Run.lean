import Mathlib.Data.List.Nodup

/-!
# Runs

A system is a function that takes a state and an action to an answer and the next
state. A run is a list of actions: `after` is where it leads, `history` is what
was done and answered on the way. Who takes the actions does not matter, so the
runs of a system with many clients are the interleavings of their actions.

`history_inv` is the rule for all of this: what every step keeps, of the history so
far and the state, holds of every run. `Along` restricts the runs to those whose
steps all meet a condition.

A call that takes several steps is a task: an entry of a table that says how far
it has come.
-/

namespace GtaClaw.Lib

variable {σ α ρ : Type} (step : σ → α → ρ × σ)

/-- The state that a run leads to. -/
def after : σ → List α → σ
  | s, [] => s
  | s, a :: as => after (step s a).2 as

/-- What was done, and what was answered. -/
def history : σ → List α → List (α × ρ)
  | _, [] => []
  | s, a :: as => (a, (step s a).1) :: history (step s a).2 as

/-- Every step meets the condition in the state it is taken in. -/
def Along (ok : σ → α → Prop) : σ → List α → Prop
  | _, [] => True
  | s, a :: as => ok s a ∧ Along ok (step s a).2 as

instance instDecidableAlong {ok : σ → α → Prop} [∀ s a, Decidable (ok s a)] :
    ∀ (s : σ) (as : List α), Decidable (Along step ok s as)
  | _, [] => isTrue trivial
  | s, a :: as =>
    have : Decidable (Along step ok (step s a).2 as) := instDecidableAlong (step s a).2 as
    inferInstanceAs (Decidable (ok s a ∧ Along step ok (step s a).2 as))

variable {step} {ok : σ → α → Prop}

theorem along_true : ∀ (as : List α) (s : σ), Along step (fun _ _ => True) s as
  | [], _ => trivial
  | _ :: as, _ => ⟨trivial, along_true as _⟩

theorem after_append : ∀ (as : List α) (s : σ) (as' : List α),
    after step s (as ++ as') = after step (after step s as) as'
  | [], _, _ => rfl
  | _ :: as, _, as' => after_append as _ as'

theorem Along.append : ∀ {as : List α} {s : σ} {as' : List α}, Along step ok s as →
    Along step ok (after step s as) as' → Along step ok s (as ++ as')
  | [], _, _, _, h => h
  | _ :: _, _, _, hfirst, h => ⟨hfirst.1, hfirst.2.append h⟩

open List

theorem history_append : ∀ (as : List α) (s : σ) (as' : List α),
    history step s (as ++ as') = history step s as ++ history step (after step s as) as'
  | [], _, _ => rfl
  | _ :: as, _, as' => congrArg (cons _) (history_append as _ as')

/-- **The rule for runs**: a relation of history and state that every step keeps. -/
theorem history_inv {I : List (α × ρ) → σ → Prop}
    (hstep : ∀ past s a, I past s → ok s a → I (past ++ [(a, (step s a).1)]) (step s a).2) :
    ∀ (as : List α) (past : List (α × ρ)) (s : σ), I past s → Along step ok s as →
      I (past ++ history step s as) (after step s as)
  | [], past, _, h, _ => by
    rw [history, append_nil]
    exact h
  | a :: as, past, s, h, hok => by
    have hnext := history_inv hstep as _ _ (hstep past s a h hok.1) hok.2
    rw [append_assoc] at hnext
    exact hnext

theorem after_inv {I : σ → Prop}
    (hstep : ∀ s a, I s → ok s a → I (step s a).2) (as : List α) (s : σ) (h : I s)
    (hok : Along step ok s as) : I (after step s as) :=
  history_inv (I := fun _ => I) (fun _ s a => hstep s a) as [] s h hok

/-- What an invariant says of every step. -/
theorem Along.of_inv {ok good : σ → α → Prop} {I : σ → Prop}
    (hstep : ∀ s a, I s → ok s a → I (step s a).2) (hgood : ∀ s a, I s → ok s a → good s a) :
    ∀ (as : List α) (s : σ), I s → Along step ok s as → Along step good s as
  | [], _, _, _ => trivial
  | a :: as, s, h, hok => ⟨hgood s a h hok.1, of_inv hstep hgood as _ (hstep s a h hok.1) hok.2⟩

/-! ## What a history says

A question about a history is put to its events one by one: `f` picks out the
events that matter and says what they are about. -/

section Events

variable {ε β : Type} {f : ε → Option β} {past : List ε} {e : ε} {b : β}

theorem mem_filterMap_concat :
    b ∈ (past ++ [e]).filterMap f ↔ b ∈ past.filterMap f ∨ f e = some b := by
  rw [filterMap_append, mem_append, mem_filterMap (l := [e])]
  simp only [mem_singleton, exists_eq_left]

theorem filterMap_concat_of_none (h : f e = none) :
    (past ++ [e]).filterMap f = past.filterMap f := by
  rw [filterMap_append, filterMap_cons, h]
  exact append_nil _

theorem filterMap_concat_of_some (h : f e = some b) :
    (past ++ [e]).filterMap f = past.filterMap f ++ [b] := by
  rw [filterMap_append, filterMap_cons, h]
  rfl

theorem filterMap_set_of_eq {x : ε} (heq : f x = f e) :
    ∀ {xs : List ε} {k : Nat}, xs[k]? = some e → (xs.set k x).filterMap f = xs.filterMap f
  | [], _, h => by cases h
  | y :: ys, 0, h => by
    cases h
    rw [set_cons_zero, filterMap_cons, filterMap_cons, heq]
  | y :: ys, k + 1, h => by
    have hrest : ys[k]? = some e := h
    rw [set_cons_succ, filterMap_cons, filterMap_cons,
      filterMap_set_of_eq heq hrest]

/-- Where an event stands in a history that has just grown: it is the last one, or it
stood in the history before. -/
theorem concat_eq_append_cons {before since : List ε} {x : ε}
    (h : past ++ [e] = before ++ x :: since) :
    (before = past ∧ x = e ∧ since = []) ∨
    ∃ since', since = since' ++ [e] ∧ past = before ++ x :: since' := by
  rcases eq_nil_or_concat since with rfl | ⟨since', last, rfl⟩
  · obtain ⟨rfl, hx⟩ := append_inj' h rfl
    exact .inl ⟨rfl, (singleton_inj.mp hx).symm, rfl⟩
  rw [concat_eq_append, ← cons_append, ← append_assoc] at h
  obtain ⟨hpast, hx⟩ := append_inj' h rfl
  exact .inr ⟨since', by rw [concat_eq_append, hx], hpast⟩

/-- The next event is about something new. -/
theorem nodup_filterMap_concat (h : (past.filterMap f).Nodup)
    (hnew : ∀ b, f e = some b → b ∉ past.filterMap f) : ((past ++ [e]).filterMap f).Nodup := by
  rw [filterMap_append, nodup_append]
  refine ⟨h, ?_, ?_⟩
  · rw [filterMap_cons]
    split
    · exact nodup_nil
    · exact nodup_singleton _
  · intro a ha a' ha' heq
    obtain ⟨x, hx, hfx⟩ := mem_filterMap.mp ha'
    rw [mem_singleton.mp hx] at hfx
    exact hnew a' hfx (heq ▸ ha)

end Events

/-! ## Tables -/

theorem update_eq_some {κ β : Type} [DecidableEq κ] {m : κ → Option β} {k k' : κ}
    {v : Option β} {x : β} (h : Function.update m k v k' = some x) :
    (k' = k ∧ v = some x) ∨ (k' ≠ k ∧ m k' = some x) := by
  by_cases hk : k' = k
  · rw [hk, Function.update_self] at h
    exact .inl ⟨hk, h⟩
  · rw [Function.update_of_ne hk] at h
    exact .inr ⟨hk, h⟩

theorem getElem?_set_some {xs : List α} {i j : Nat} {x y : α} (h : (xs.set i x)[j]? = some y) :
    (j = i ∧ y = x) ∨ (j ≠ i ∧ xs[j]? = some y) := by
  rw [getElem?_set] at h
  split at h
  · rename_i hij
    split at h
    · exact .inl ⟨hij.symm, (Option.some.inj h).symm⟩
    · cases h
  · rename_i hij
    exact .inr ⟨fun he => hij he.symm, h⟩

theorem getElem?_concat_some {xs : List α} {j : Nat} {x y : α} (h : (xs ++ [x])[j]? = some y) :
    xs[j]? = some y ∨ (j = xs.length ∧ y = x) := by
  rw [getElem?_append] at h
  split at h
  · exact .inl h
  have hj : j - xs.length < [x].length := (List.getElem?_eq_some_iff.mp h).1
  rw [length_singleton] at hj
  have hzero : j - xs.length = 0 := by omega
  rw [hzero] at h
  exact .inr ⟨by omega, (Option.some.inj h).symm⟩

end GtaClaw.Lib
