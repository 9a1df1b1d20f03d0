import GtaClaw.Lib.Prog

/-!
# Programs that stop

A program that is alone with its state can stop between any two of its calls: `cut` is
what it leaves when it stops after so many of them.

`Throughout` is the rule for such programs. It says that the invariant holds at the
start, after every call and at the end, and that the program returns with the
postcondition. A program that only `Reads` leaves the state as it is at every point, so
it can be stepped over.
-/

namespace GtaClaw.Lib.Prog

variable {C : Type} {A : C → Type} {α β η σ : Type} (exec : σ → (c : C) → A c × σ)

/-- The state after at most so many calls. -/
def cut : Nat → Prog C A α → σ → σ
  | n + 1, .call c k, s => cut n (k (exec s c).1) (exec s c).2
  | _, _, s => s

/-- The invariant holds at every point, and the postcondition at the end. -/
inductive Throughout (inv : σ → Prop) (post : α → σ → Prop) : Prog C A α → σ → Prop where
  | ret {a : α} {s : σ} (hinv : inv s) (hpost : post a s) : Throughout inv post (.ret a) s
  | call {c : C} {k : A c → Prog C A α} {s : σ} (hinv : inv s)
      (hrest : Throughout inv post (k (exec s c).1) (exec s c).2) :
      Throughout inv post (.call c k) s

/-- The state is the same at every point, and this is what is returned. -/
structure Reads (p : Prog C A α) (s : σ) (a : α) : Prop where
  throughout_eq : p.Throughout exec (· = s) (fun x _ => x = a) s

variable {exec} {inv inv' : σ → Prop} {post post' : α → σ → Prop} {p : Prog C A α} {s : σ} {a : α}

section

variable (h : p.Throughout exec inv post s)
include h

theorem Throughout.start : inv s := by
  cases h with
  | ret hinv _ | call hinv _ => exact hinv

theorem Throughout.cut (n : Nat) : inv (p.cut exec n s) := by
  induction h generalizing n with
  | ret hinv _ =>
    cases n with
    | zero | succ n => exact hinv
  | call hinv _ ih =>
    cases n with
    | zero => exact hinv
    | succ n => exact ih n

theorem Throughout.runAll :
    inv (p.runAll exec s).2 ∧ post (p.runAll exec s).1 (p.runAll exec s).2 := by
  induction h with
  | ret hinv hpost => exact ⟨hinv, hpost⟩
  | call _ _ ih => exact ih

end

theorem Throughout.mono (hinv : ∀ t, inv t → inv' t) (hpost : ∀ x t, inv t → post x t → post' x t)
    (h : p.Throughout exec inv post s) : p.Throughout exec inv' post' s := by
  induction h with
  | ret h hret => exact .ret (hinv _ h) (hpost _ _ h hret)
  | call h _ ih => exact .call (hinv _ h) ih

/-- What is returned, and in which state, is what the program comes to when it does not stop. -/
theorem Throughout.exact (h : p.Throughout exec inv post s) :
    p.Throughout exec inv (fun x t => post x t ∧ p.runAll exec s = (x, t)) s := by
  induction h with
  | ret hinv hpost => exact .ret hinv ⟨hpost, rfl⟩
  | call hinv _ ih => exact .call hinv ih

theorem Throughout.bind {first : α → σ → Prop} {post : β → σ → Prop} {f : α → Prog C A β}
    (hf : ∀ x t, inv t → first x t → (f x).Throughout exec inv post t)
    (h : p.Throughout exec inv first s) : (p.bind f).Throughout exec inv post s := by
  induction h with
  | ret hinv hfirst => exact hf _ _ hinv hfirst
  | call hinv _ ih => exact .call hinv ih

variable {f : α → ExceptT η (Prog C A) β} {m : ExceptT η (Prog C A) α}

theorem Throughout.bindExcept {first : Except η α → σ → Prop} {post : Except η β → σ → Prop}
    (h : m.run.Throughout exec inv first s)
    (hok : ∀ x t, inv t → first (.ok x) t → (f x).run.Throughout exec inv post t)
    (herror : ∀ e t, inv t → first (.error e) t → post (.error e) t) :
    (m >>= f).run.Throughout exec inv post s := by
  refine Throughout.bind (fun result t ht hfirst => ?_) h
  cases result with
  | ok x => exact hok x t ht hfirst
  | error e => exact .ret ht (herror e t ht hfirst)

/-- The first one does not fail. -/
theorem Throughout.bindDone {a : α} {known : σ → Prop} {post : Except η β → σ → Prop}
    (h : m.run.Throughout exec inv (fun result t => result = .ok a ∧ known t) s)
    (hok : ∀ t, inv t → known t → (f a).run.Throughout exec inv post t) :
    (m >>= f).run.Throughout exec inv post s := by
  refine Throughout.bind ?_ h
  rintro _ t ht ⟨rfl, hknown⟩
  exact hok t ht hknown

/-- It does not fail, whatever it returns. -/
theorem Throughout.bindSome {known : σ → Prop} {post : Except η β → σ → Prop}
    (h : m.run.Throughout exec inv (fun result t => (∃ a, result = .ok a) ∧ known t) s)
    (hok : ∀ a t, inv t → known t → (f a).run.Throughout exec inv post t) :
    (m >>= f).run.Throughout exec inv post s := by
  refine Throughout.bind ?_ h
  rintro _ t ht ⟨⟨a, rfl⟩, hknown⟩
  exact hok a t ht hknown

/-! ## Reading -/

theorem reads_ret : Reads exec (.ret a) s a := ⟨.ret rfl rfl⟩

theorem reads_call {c : C} {k : A c → Prog C A α} (hsame : (exec s c).2 = s)
    (h : Reads exec (k (exec s c).1) s a) : Reads exec (.call c k) s a := by
  refine ⟨.call rfl ?_⟩
  rw [hsame]
  exact h.throughout_eq

theorem Reads.runAll_eq (h : Reads exec p s a) : p.runAll exec s = (a, s) :=
  Prod.ext h.throughout_eq.runAll.2 h.throughout_eq.runAll.1

theorem Reads.throughout (h : Reads exec p s a) (hs : inv s) (hpost : post a s) :
    p.Throughout exec inv post s := by
  refine Throughout.mono ?_ ?_ h.throughout_eq
  · rintro _ rfl
    exact hs
  · rintro _ _ rfl rfl
    exact hpost

theorem Reads.bind {x : β} {f : α → Prog C A β} (h : Reads exec p s a)
    (hf : Reads exec (f a) s x) : Reads exec (p.bind f) s x := by
  refine ⟨Throughout.bind ?_ h.throughout_eq⟩
  rintro _ _ rfl rfl
  exact hf.throughout_eq

theorem Reads.bindOk {x : Except η β} (h : Reads exec m.run s (.ok a))
    (hf : Reads exec (f a).run s x) : Reads exec (m >>= f).run s x :=
  Reads.bind h hf

theorem Reads.bindError {e : η}
    (h : Reads exec m.run s (.error e)) : Reads exec (m >>= f).run s (.error e) :=
  Reads.bind h reads_ret

/-- What was read is known to the rest of the program. -/
theorem Reads.thenOk {post : Except η β → σ → Prop} (h : Reads exec m.run s (.ok a))
    (hf : (f a).run.Throughout exec inv post s) : (m >>= f).run.Throughout exec inv post s := by
  have hread : m.run.Throughout exec inv (fun x t => x = .ok a ∧ t = s) s :=
    h.throughout hf.start ⟨rfl, rfl⟩
  exact Throughout.bindDone hread fun _ _ ht => ht ▸ hf

end GtaClaw.Lib.Prog
