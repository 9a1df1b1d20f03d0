import GtaClaw.Lib.Loop

/-!
# The processes below a process

A process that is killed takes its whole tree along, so `descendants` searches a table of
processes and their parents from the root down. The table is what `ps` printed: a process may be
listed twice, and parents may form a cycle.
-/

namespace GtaClaw.Tools

open Lib List

/-- Rows of a process and its parent. -/
abbrev ProcessTable := List (UInt32 × UInt32)

/-- What the map from a parent to its processes holds; no entry is an empty list. -/
def children (table : ProcessTable) (parent : UInt32) : List UInt32 :=
  (table.filter fun row => row.1 ≠ row.2 ∧ row.2 = parent).map Prod.fst

theorem mem_children {table : ProcessTable} {pid parent : UInt32} :
    pid ∈ children table parent ↔ (pid, parent) ∈ table ∧ pid ≠ parent := by
  simp [children]

structure Search where
  seen : Finset UInt32
  queue : List UInt32
  found : List UInt32

def Search.visit (s : Search) (kid : UInt32) : Search :=
  if kid ∈ s.seen then s else ⟨insert kid s.seen, s.queue ++ [kid], s.found ++ [kid]⟩

/-- A scan of the children queues and reports those that were not seen, once each. -/
theorem Search.foldl_visit (kids : List UInt32) (s : Search) : ∃ fresh : List UInt32,
    kids.foldl visit s = ⟨s.seen ∪ fresh.toFinset, s.queue ++ fresh, s.found ++ fresh⟩ ∧
      fresh.Nodup ∧ ∀ pid, pid ∈ fresh ↔ pid ∈ kids ∧ pid ∉ s.seen := by
  induction kids generalizing s with
  | nil => exact ⟨[], by simp⟩
  | cons kid kids ih =>
    rw [foldl_cons]
    by_cases hseen : kid ∈ s.seen
    · obtain ⟨fresh, heq, hnodup, hmem⟩ := ih s
      rw [visit, if_pos hseen]
      refine ⟨fresh, heq, hnodup, fun pid => ?_⟩
      grind
    · obtain ⟨fresh, heq, hnodup, hmem⟩ :=
        ih ⟨insert kid s.seen, s.queue ++ [kid], s.found ++ [kid]⟩
      rw [visit, if_neg hseen, heq]
      refine ⟨kid :: fresh, ?_, ?_, fun pid => ?_⟩
      · simp
      · grind
      · grind

def searchPass (table : ProcessTable) (s : Search) : Search ⊕ List UInt32 :=
  match s.queue with
  | [] => .inr s.found
  | current :: queue => .inl ((children table current).foldl .visit { s with queue })

/-- A process enters the queue when it is first seen, and only those of the table are. -/
def searchLoop (table : ProcessTable) : Loop Search (List UInt32) where
  body := searchPass table
  measure s := s.queue.length + ((table.map Prod.fst).toFinset \ s.seen).card
  decreases s s' h := by
    unfold searchPass at h
    split at h
    · cases h
    rename_i current queue hqueue
    obtain ⟨fresh, heq, hnodup, hmem⟩ :=
      Search.foldl_visit (children table current) { s with queue }
    rw [heq] at h
    cases h
    have hsub : fresh.toFinset ⊆ (table.map Prod.fst).toFinset \ s.seen := by
      intro pid hpid
      obtain ⟨hkid, hnew⟩ := (hmem pid).mp (List.mem_toFinset.mp hpid)
      simp only [Finset.mem_sdiff, List.mem_toFinset, mem_map]
      exact ⟨⟨_, (mem_children.mp hkid).1, rfl⟩, hnew⟩
    have hcard := Finset.card_sdiff_add_card_eq_card hsub
    rw [sdiff_sdiff, toFinset_card_of_nodup hnodup] at hcard
    rw [hqueue, length_cons, length_append, ← hcard]
    simp only [Finset.sup_eq_union]
    omega

def Search.start (root : UInt32) : Search := ⟨{root}, [root], []⟩

def descendants (table : ProcessTable) (root : UInt32) : List UInt32 :=
  (searchLoop table).run (.start root)

/-- A process is so many parent links below the root. -/
inductive Below (table : ProcessTable) (root : UInt32) : Nat → UInt32 → Prop where
  | root : Below table root 0 root
  | child {n : Nat} {pid parent : UInt32} :
      Below table root n parent → (pid, parent) ∈ table → Below table root (n + 1) pid

/-- What was found is what each of the scanned processes added, in their order: children that no
process before it has. -/
def InOrder (table : ProcessTable) (scanned found : List UInt32) : Prop :=
  ∃ kids : UInt32 → List UInt32, found = scanned.flatMap kids ∧
    (∀ parent ∈ scanned, ∀ pid ∈ kids parent, pid ∈ children table parent) ∧
    scanned.Pairwise fun parent later => ∀ pid ∈ kids later, pid ∉ children table parent

theorem InOrder.concat {table : ProcessTable} {scanned found fresh : List UInt32} {current : UInt32}
    (h : InOrder table scanned found) (hcurrent : current ∉ scanned)
    (hkids : ∀ pid ∈ fresh, pid ∈ children table current)
    (hnew : ∀ pid ∈ fresh, ∀ parent ∈ scanned, pid ∉ children table parent) :
    InOrder table (scanned ++ [current]) (found ++ fresh) := by
  obtain ⟨kids, rfl, hmem, hfirst⟩ := h
  have hold : ∀ parent ∈ scanned, Function.update kids current fresh parent = kids parent := by
    intro parent hparent
    refine Function.update_of_ne ?_ _ _
    rintro rfl
    exact hcurrent hparent
  refine ⟨Function.update kids current fresh, ?_, ?_, ?_⟩
  · rw [flatMap_append, flatMap_singleton, Function.update_self]
    exact congrArg (· ++ fresh) (flatMap_congr fun parent hparent => (hold parent hparent).symm)
  · refine forall_mem_append.mpr ⟨fun parent hparent => ?_, forall_mem_singleton.mpr ?_⟩
    · rw [hold parent hparent]
      exact hmem parent hparent
    · rw [Function.update_self]
      exact hkids
  · refine pairwise_append.mpr ⟨hfirst.imp_of_mem fun _ hlater h => ?_, pairwise_singleton _ _, ?_⟩
    · rwa [hold _ hlater]
    · intro parent hparent later hlater
      rw [mem_singleton.mp hlater, Function.update_self]
      exact fun pid hpid => hnew pid hpid parent hparent

/-- The processes other than the root that parent links lead to from it, once each, those with
fewer links first, and the children of one that is listed earlier first. -/
structure BreadthFirst (table : ProcessTable) (root : UInt32) (found : List UInt32) : Prop where
  once : found.Nodup
  reached : ∀ pid, pid ∈ found ↔ pid ≠ root ∧ ∃ n, Below table root n pid
  nearer : found.Pairwise fun pid later =>
    ∀ n, Below table root n later → ∃ m ≤ n, Below table root m pid
  inOrder : InOrder table (root :: found) found

/-- The processes `done` have been scanned, the others that were seen are queued. `depth` tells
how many links each was found below the root. -/
structure Search.Inv (table : ProcessTable) (root : UInt32) (done : List UInt32)
    (depth : UInt32 → Nat) (s : Search) : Prop where
  split : root :: s.found = done ++ s.queue
  origin : depth root = 0
  seen : ∀ pid, pid ∈ s.seen ↔ pid ∈ done ++ s.queue
  nodup : (done ++ s.queue).Nodup
  below : ∀ pid ∈ done ++ s.queue, Below table root (depth pid) pid
  sorted : (done ++ s.queue).Pairwise (depth · ≤ depth ·)
  near : ∀ pid ∈ done ++ s.queue, ∀ next ∈ s.queue, depth pid ≤ depth next + 1
  closed : ∀ parent ∈ done, ∀ pid ∈ children table parent,
    pid ∈ done ++ s.queue ∧ depth pid ≤ depth parent + 1
  inOrder : InOrder table done s.found

variable {table : ProcessTable} {root : UInt32} {done : List UInt32} {depth : UInt32 → Nat}
  {s : Search}

theorem Search.Inv.scan (h : s.Inv table root done depth) {current : UInt32} {queue : List UInt32}
    (hqueue : s.queue = current :: queue) :
    ∃ depth, Search.Inv table root (done ++ [current]) depth
      ((children table current).foldl .visit { s with queue }) := by
  obtain ⟨fresh, heq, hnodup, hmem⟩ := foldl_visit (children table current) { s with queue }
  obtain ⟨split, origin, seen, nodup, below, sorted, near, closed, inOrder⟩ := h
  rw [heq]
  simp only [seen] at hmem
  have hlisted : done ++ [current] ++ (queue ++ fresh) = done ++ s.queue ++ fresh := by simp [hqueue]
  -- what is new is one link below the process that is scanned
  let deeper pid := if pid ∈ fresh then depth current + 1 else depth pid
  have hnew : ∀ pid ∈ fresh, deeper pid = depth current + 1 := fun pid hpid => if_pos hpid
  have hold : ∀ pid ∈ done ++ s.queue, deeper pid = depth pid :=
    fun pid hpid => if_neg fun hfresh => ((hmem pid).mp hfresh).2 hpid
  have hcurrent : current ∈ done ++ s.queue := by simp [hqueue]
  have hnear := fun pid hpid => near pid hpid current (by simp [hqueue])
  have hafter : ∀ next ∈ queue, depth current ≤ depth next := by
    rw [hqueue] at sorted
    exact (pairwise_cons.mp (pairwise_append.mp sorted).2.1).1
  clear_value deeper
  have hordered : InOrder table (done ++ [current]) (s.found ++ fresh) := by
    refine inOrder.concat ?_ (fun pid hpid => ((hmem pid).mp hpid).1)
      fun pid hpid parent hparent hkid => ?_
    · grind [nodup_append]
    · exact ((hmem pid).mp hpid).2 (closed parent hparent pid hkid).1
  refine ⟨deeper, ?_, (hold root (by simp [← split])).trans origin, ?_, ?_, ?_, ?_, ?_, ?_, hordered⟩
  all_goals simp only [hlisted]
  · rw [← split, cons_append]
  · simp [seen, hqueue, or_assoc]
  · grind [nodup_append]
  · intro pid hpid
    rcases mem_append.mp hpid with hpid | hfresh
    · exact hold pid hpid ▸ below pid hpid
    · rw [hnew pid hfresh]
      exact (below current hcurrent).child (mem_children.mp ((hmem pid).mp hfresh).1).1
  · refine pairwise_append.mpr ⟨sorted.imp_of_mem fun hpid hlater hle => ?_, ?_, ?_⟩
    · rwa [hold _ hpid, hold _ hlater]
    · exact pairwise_of_forall_mem_list (by grind)
    · grind
  · grind
  · grind

theorem Search.Inv.breadthFirst (h : s.Inv table root done depth) (hqueue : s.queue = []) :
    BreadthFirst table root s.found := by
  obtain ⟨split, origin, -, nodup, below, sorted, -, closed, inOrder⟩ := h
  rw [hqueue, append_nil] at split nodup below sorted closed
  subst split
  have hleast : ∀ n pid, Below table root n pid → pid ∈ root :: s.found ∧ depth pid ≤ n := by
    intro n pid h
    induction h with
    | root => exact ⟨mem_cons_self, origin.le⟩
    | @child n pid parent _ hrow ih =>
      by_cases hself : pid = parent
      · exact hself ▸ ⟨ih.1, Nat.le_succ_of_le ih.2⟩
      obtain ⟨hlisted, hle⟩ := closed parent ih.1 pid (mem_children.mpr ⟨hrow, hself⟩)
      exact ⟨hlisted, hle.trans (by omega)⟩
  obtain ⟨hroot, hnodup⟩ := nodup_cons.mp nodup
  refine ⟨hnodup, fun pid => ⟨fun hpid => ?_, fun ⟨hne, n, hpid⟩ => ?_⟩, ?_, inOrder⟩
  · refine ⟨?_, _, below pid (mem_cons_of_mem _ hpid)⟩
    rintro rfl
    exact hroot hpid
  · exact (mem_cons.mp (hleast n pid hpid).1).resolve_left hne
  · refine sorted.of_cons.imp_of_mem fun hpid _ hle n hlater => ?_
    exact ⟨_, hle.trans (hleast n _ hlater).2, below _ (mem_cons_of_mem _ hpid)⟩

/-- **The tree below a process.** The search ends, for every table. -/
theorem descendants_breadth_first (table : ProcessTable) (root : UInt32) :
    (∃ n, (searchLoop table).Passes n (.start root) (descendants table root)) ∧
      BreadthFirst table root (descendants table root) := by
  obtain ⟨n, -, hpasses⟩ := (searchLoop table).exists_passes (.start root)
  refine ⟨⟨n, hpasses⟩, (searchLoop table).run_inv
    (P := fun s => ∃ done depth, s.Inv table root done depth) ?_ ?_ ⟨[], fun _ => 0, ?_⟩⟩
  · rintro s s' ⟨done, depth, hs⟩ hbody
    change searchPass table s = _ at hbody
    unfold searchPass at hbody
    split at hbody
    · cases hbody
    · cases hbody
      exact ⟨_, hs.scan ‹_›⟩
  · rintro s found ⟨done, depth, hs⟩ hbody
    change searchPass table s = _ at hbody
    unfold searchPass at hbody
    split at hbody
    · cases hbody
      exact hs.breadthFirst ‹_›
    · cases hbody
  · constructor <;> simp [Search.start, Below.root, InOrder]

end GtaClaw.Tools
