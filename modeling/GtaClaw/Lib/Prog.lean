import GtaClaw.Lib.Run

/-!
# Programs of atomic calls

A `Prog` makes calls to something shared and goes on with their answers. Between two
calls of one program anything can happen: a `Pool` is the shared state together with
the programs that are under way, and one step of it is one call of one of them. A
program that is never scheduled again is one that was dropped or crashed there.

`Safe` is the rule for proving something about all interleavings from the text of the
programs alone. It says of the rest of a program that, whatever states the others lead
to that `rely` allows, the next call is one that it `may` make there, and so on until
it returns with `post`. `Sound` collects what has to be shown once for the calls: that
they keep the invariant and what the other programs rely on.
-/

namespace GtaClaw.Lib

/-- A program that makes calls `C` with answers `A`, and returns an `α`. -/
inductive Prog (C : Type) (A : C → Type) (α : Type) where
  | ret (a : α)
  | call (c : C) (k : A c → Prog C A α)

namespace Prog

variable {C : Type} {A : C → Type} {α β : Type}

protected def bind : Prog C A α → (α → Prog C A β) → Prog C A β
  | .ret a, f => f a
  | .call c k, f => .call c fun x => (k x).bind f

instance : Monad (Prog C A) where
  pure := .ret
  bind := .bind

def ask (c : C) : Prog C A (A c) := .call c .ret

/-- A program that nobody interrupts. -/
def runAll {σ : Type} (exec : σ → (c : C) → A c × σ) : Prog C A α → σ → α × σ
  | .ret a, s => (a, s)
  | .call c k, s => (k (exec s c).1).runAll exec (exec s c).2

theorem runAll_bind {σ : Type} (exec : σ → (c : C) → A c × σ) (f : α → Prog C A β) :
    ∀ (p : Prog C A α) (s : σ),
      (p.bind f).runAll exec s = (f (p.runAll exec s).1).runAll exec (p.runAll exec s).2
  | .ret _, _ => rfl
  | .call c k, s => runAll_bind exec f (k (exec s c).1) (exec s c).2

/-! ## Safety under interference -/

section Safe

variable {σ ε : Type} (exec : σ → ε → (c : C) → A c × σ) (valid : σ → Prop) (rely : σ → σ → Prop)
  (may : σ → C → Prop)

def Safe (post : α → σ → Prop) : Prog C A α → σ → Prop
  | .ret a, s => ∀ s', valid s' → rely s s' → post a s'
  | .call c k, s => ∀ s', valid s' → rely s s' →
      may s' c ∧ ∀ e, Safe post (k (exec s' e c).1) (exec s' e c).2

variable {exec valid rely may} {post : α → σ → Prop} {s s' : σ}

theorem Safe.mono (htrans : ∀ a b c, rely a b → rely b c → rely a c) (hss : rely s s') :
    ∀ {p : Prog C A α}, Safe exec valid rely may post p s → Safe exec valid rely may post p s'
  | .ret _, h => fun t ht hst => h t ht (htrans _ _ _ hss hst)
  | .call _ _, h => fun t ht hst => h t ht (htrans _ _ _ hss hst)

section

variable (hrefl : ∀ t, valid t → rely t t)
  (hkeeps : ∀ t e c, valid t → may t c → valid (exec t e c).2)
include hrefl hkeeps

theorem Safe.bind {first : α → σ → Prop} {post : β → σ → Prop} {f : α → Prog C A β} :
    ∀ {p : Prog C A α} {s : σ}, valid s → Safe exec valid rely may first p s →
      (∀ a t, valid t → first a t → Safe exec valid rely may post (f a) t) →
      Safe exec valid rely may post (p.bind f) s
  | .ret a, s, hs, h, hf => hf a s hs (h s hs (hrefl s hs))
  | .call c _, _, _, h, hf => fun t ht hst =>
    have hcall := h t ht hst
    ⟨hcall.1, fun e => Safe.bind (hkeeps t e c ht hcall.1) (hcall.2 e) hf⟩

theorem Safe.bindExcept {η : Type} {first : Except η α → σ → Prop} {post : Except η β → σ → Prop}
    {m : ExceptT η (Prog C A) α} {f : α → ExceptT η (Prog C A) β} (hs : valid s)
    (h : Safe exec valid rely may first m.run s)
    (hok : ∀ a t, valid t → first (.ok a) t → Safe exec valid rely may post (f a).run t)
    (herror : ∀ e t, valid t → first (.error e) t →
      Safe exec valid rely may post (.ret (.error e)) t) :
    Safe exec valid rely may post (m >>= f).run s := by
  refine Safe.bind hrefl hkeeps hs h fun result t ht hfirst => ?_
  cases result with
  | ok a => exact hok a t ht hfirst
  | error e => exact herror e t ht hfirst

end

end Safe

end Prog

/-! ## Pools -/

/-- The shared state, and the programs that were started, each with what it was started for. -/
structure Pool (σ ι C : Type) (A : C → Type) (α : Type) where
  shared : σ
  tasks : List (ι × Prog C A α)

inductive PoolAct (ι ε : Type) where
  | spawn (op : ι)
  /-- The next call of this program is made; the rest is up to the environment. -/
  | run (task : Nat) (env : ε)

namespace Pool

variable {σ ι C : Type} {A : C → Type} {α ε : Type}

section Step

variable (body : ι → Prog C A α) (exec : Nat → ι → σ → ε → (c : C) → A c × σ)

def run (p : Pool σ ι C A α) (i : Nat) (e : ε) : Pool σ ι C A α :=
  match p.tasks[i]? with
  | some (op, .call c k) =>
    let (x, s) := exec i op p.shared e c
    ⟨s, p.tasks.set i (op, k x)⟩
  | _ => p

def act (p : Pool σ ι C A α) : PoolAct ι ε → Pool σ ι C A α
  | .spawn op => { p with tasks := p.tasks ++ [(op, body op)] }
  | .run i e => p.run exec i e

def step (p : Pool σ ι C A α) (a : PoolAct ι ε) : Unit × Pool σ ι C A α := ((), p.act body exec a)

end Step

/-- What the next call of a program keeps, a step of the pool keeps. -/
theorem act_shared {body : ι → Prog C A α} {exec : Nat → ι → σ → ε → (c : C) → A c × σ}
    {P : σ → Prop} {p : Pool σ ι C A α} {a : PoolAct ι ε} (h : P p.shared)
    (hcall : ∀ i e op c k, a = .run i e → p.tasks[i]? = some (op, .call c k) →
      P (exec i op p.shared e c).2) : P (p.act body exec a).shared := by
  cases a with
  | spawn op => exact h
  | run i e =>
    change P (p.run exec i e).shared
    unfold run
    split
    · rename_i op c k htask
      exact hcall i e op c k rfl htask
    · exact h

/-- What is to be shown of programs: of all states, of states in which a program has done
nothing yet, and for each program what it relies on, may call and returns. -/
structure Spec (σ ι C α : Type) where
  valid : σ → Prop
  fresh : Nat → σ → Prop
  rely : Nat → ι → σ → σ → Prop
  may : Nat → ι → σ → C → Prop
  post : Nat → ι → α → σ → Prop

/-- The calls keep to the specification. -/
structure Sound (spec : Spec σ ι C α) (body : ι → Prog C A α)
    (exec : Nat → ι → σ → ε → (c : C) → A c × σ) : Prop where
  refl : ∀ i op s, spec.valid s → spec.rely i op s s
  trans : ∀ i op a b c, spec.rely i op a b → spec.rely i op b c → spec.rely i op a c
  keeps : ∀ i op s e c, spec.valid s → spec.may i op s c → spec.valid (exec i op s e c).2
  frames : ∀ i op j op' s e c, i ≠ j → spec.valid s → spec.may i op s c →
    spec.rely j op' s (exec i op s e c).2
  untouched : ∀ i op n s e c, i ≠ n → spec.fresh n s → spec.may i op s c →
    spec.fresh n (exec i op s e c).2
  starts : ∀ n op s, spec.valid s → spec.fresh n s →
    Prog.Safe (exec n op) spec.valid (spec.rely n op) (spec.may n op) (spec.post n op) (body op) s

/-- The specification holds of a pool. -/
structure Holds (spec : Spec σ ι C α) (exec : Nat → ι → σ → ε → (c : C) → A c × σ)
    (p : Pool σ ι C A α) : Prop where
  valid : spec.valid p.shared
  fresh : ∀ n, p.tasks.length ≤ n → spec.fresh n p.shared
  safe : ∀ i op rest, p.tasks[i]? = some (op, rest) →
    Prog.Safe (exec i op) spec.valid (spec.rely i op) (spec.may i op) (spec.post i op) rest p.shared

variable {spec : Spec σ ι C α} {body : ι → Prog C A α} {exec : Nat → ι → σ → ε → (c : C) → A c × σ}
  {p : Pool σ ι C A α}

/-- The next call of a program is one that it may make. -/
theorem Holds.may (h : Holds spec exec p) (hs : Sound spec body exec) {i : Nat} {op : ι} {c : C}
    {k : A c → Prog C A α} (htask : p.tasks[i]? = some (op, .call c k)) : spec.may i op p.shared c :=
  (h.safe i op _ htask p.shared h.valid (hs.refl i op _ h.valid)).1

theorem Holds.act (hs : Sound spec body exec) (h : Holds spec exec p) (a : PoolAct ι ε) :
    Holds spec exec (p.act body exec a) := by
  cases a with
  | spawn op =>
    refine ⟨h.valid, fun n hn => ?_, fun i op' rest htask => ?_⟩
    · refine h.fresh n (Nat.le_trans (Nat.le_succ _) ?_)
      rw [Pool.act, List.length_append] at hn
      exact hn
    · rcases getElem?_concat_some htask with hold | ⟨rfl, heq⟩
      · exact h.safe i op' rest hold
      · cases heq
        exact hs.starts _ op _ h.valid (h.fresh _ (Nat.le_refl _))
  | run i e =>
    change Holds spec exec (p.run exec i e)
    unfold Pool.run
    split
    · rename_i op c k htask
      have hmay := h.may hs htask
      have hown := (h.safe i op _ htask p.shared h.valid (hs.refl i op _ h.valid)).2 e
      obtain ⟨hlt, -⟩ := getElem?_eq_some_iff.mp htask
      refine ⟨hs.keeps i op _ e c h.valid hmay, fun n hn => ?_, fun j op' rest hrest => ?_⟩
      · rw [List.length_set] at hn
        exact hs.untouched i op n _ e c (by omega) (h.fresh n hn) hmay
      · rcases getElem?_set_some hrest with ⟨rfl, heq⟩ | ⟨hne, hold⟩
        · cases heq
          exact hown
        · exact (h.safe j op' rest hold).mono (hs.trans j op')
            (hs.frames i op j op' _ e c (Ne.symm hne) h.valid hmay)
    · exact h

/-- **What is shown of each program holds in every interleaving.** -/
theorem holds_after (hs : Sound spec body exec) {s : σ} (hvalid : spec.valid s)
    (hfresh : ∀ n, spec.fresh n s) (acts : List (PoolAct ι ε)) :
    Holds spec exec (after (Pool.step body exec) ⟨s, []⟩ acts) :=
  after_inv (fun _ a h _ => h.act hs a) acts _
    ⟨hvalid, fun n _ => hfresh n, fun _ _ _ h => by simp at h⟩ (along_true acts _)

theorem run_call {i : Nat} {op : ι} {c : C} {k : A c → Prog C A α} {e : ε} {x : A c} {s : σ}
    (htask : p.tasks[i]? = some (op, .call c k)) (hcall : exec i op p.shared e c = (x, s)) :
    p.run exec i e = ⟨s, p.tasks.set i (op, k x)⟩ := by
  simp only [run, htask, hcall]

end Pool

end GtaClaw.Lib
