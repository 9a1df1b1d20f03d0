import GtaClaw.Lib.Strings
import GtaClaw.Tools.Sandbox

/-!
# Listed paths as text

A path that a listing returns is handed out as text, and comes back through
`Sandbox::relative`. Every path the sandbox makes is in order (`Wf`): its text is its
components with slashes between them, and each component has passed the checks. What the
checks of single components do not look at are backslashes, at which the text is taken
apart again, and a tilde at the very start.
-/

namespace GtaClaw.Tools

open Channel (Text utf8Len)
open Lib

/-! ## Components -/

variable {component : Text} {index : Nat} {limits : SandboxLimits}

theorem contains_of_isDriveDesignator (h : isDriveDesignator component = true) :
    component.contains ':' = true := by
  unfold isDriveDesignator at h
  split at h
  · simp
  · cases h

/-- The place of a component does not matter: a drive designator is refused for its colon. -/
theorem validateComponent_ok {result : Text}
    (h : validateComponent component index limits = .ok result) :
    result = component ∧ component ≠ [] ∧ component.any isControl = false ∧
      ∀ other, validateComponent component other limits = .ok component := by
  unfold validateComponent at h
  split_ifs at h with hempty hlong hcontrol hdots _ hcolon
  cases h
  have hdrive : ¬isDriveDesignator component = true := mt contains_of_isDriveDesignator hcolon
  refine ⟨rfl, by simpa using hempty, by simpa using hcontrol, fun other => ?_⟩
  simp only [validateComponent, *, Bool.false_eq_true, and_false, if_false]

variable {components : List Text}

open List

theorem validateComponents_iff {raw : List Text} :
    validateComponents limits index raw = .ok components ↔
      components = raw ∧ ∀ component ∈ raw, validateComponent component 0 limits = .ok component := by
  induction raw generalizing index components with
  | nil => simp [validateComponents]
  | cons first rest ih =>
    rw [validateComponents]
    cases hfirst : validateComponent first index limits with
    | error error =>
      refine iff_of_false (by simp) (fun h => ?_)
      obtain ⟨-, -, -, hany⟩ := validateComponent_ok (h.2 first mem_cons_self)
      cases hfirst.symm.trans (hany index)
    | ok checked =>
      obtain ⟨rfl, -, -, hany⟩ := validateComponent_ok hfirst
      cases hrest : validateComponents limits (index + 1) rest with
      | error error =>
        refine iff_of_false (by simp) (fun h => ?_)
        cases hrest.symm.trans (ih.mpr ⟨rfl, (forall_mem_cons.mp h.2).2⟩)
      | ok others =>
        obtain ⟨rfl, hothers⟩ := ih.mp hrest
        constructor
        · rintro ⟨⟩
          exact ⟨rfl, forall_mem_cons.mpr ⟨hany 0, hothers⟩⟩
        · rintro ⟨rfl, -⟩
          rfl

/-! ## Paths in order -/

theorem utf8Len_append (a b : Text) : utf8Len (a ++ b) = utf8Len a + utf8Len b := by simp [utf8Len]

theorem joinPath_concat (hne : components ≠ []) (last : Text) :
    joinPath (components ++ [last]) = joinPath components ++ ['/'] ++ last := by
  induction components with
  | nil => exact absurd rfl hne
  | cons first rest ih =>
    cases rest with
    | nil => simp [joinPath]
    | cons next rest =>
      have hrest := ih (by simp)
      simp only [joinPath, cons_append, intercalate_cons_cons] at hrest ⊢
      rw [hrest]
      simp

theorem mem_joinPath {c : Char} (h : c ∈ joinPath components) :
    (∃ component ∈ components, c ∈ component) ∨ c = '/' := by
  induction components with
  | nil => cases h
  | cons first rest ih =>
    cases rest with
    | nil =>
      rw [joinPath, intercalate_singleton] at h
      exact .inl ⟨first, mem_cons_self, h⟩
    | cons next rest =>
      rw [joinPath, intercalate_cons_cons, mem_append, mem_append] at h
      rcases h with (hfirst | hslash) | hrest
      · exact .inl ⟨first, mem_cons_self, hfirst⟩
      · exact .inr (mem_singleton.mp hslash)
      · rcases ih hrest with ⟨component, hmem, hin⟩ | hslash
        · exact .inl ⟨component, mem_cons_of_mem _ hmem, hin⟩
        · exact .inr hslash

/-- What every path of the sandbox is like. -/
structure RelativePath.Wf (limits : SandboxLimits) (path : RelativePath) : Prop where
  text : path.normalized = joinPath path.components
  valid : ∀ component ∈ path.components, validateComponent component 0 limits = .ok component
  noSlash : ∀ component ∈ path.components, '/' ∉ component
  count : path.components.length ≤ limits.maxPathComponents
  size : utf8Len path.normalized ≤ limits.maxRelativeBytes

open RelativePath

/-- The text of a child is its components with slashes between them. -/
theorem RelativePath.Wf.childText {parent : RelativePath} (h : parent.Wf limits) (name : Text) :
    parent.childText name = joinPath (parent.components ++ [name]) := by
  unfold RelativePath.childText
  rcases eq_or_ne parent.components [] with hnil | hne
  · have hempty : parent.normalized = [] := by
      rw [h.text, hnil]
      rfl
    simp [hnil, hempty, joinPath]
  · -- The text of a directory below the root is not empty.
    have hfull : parent.normalized ≠ [] := by
      obtain ⟨first, rest, hcons⟩ := exists_cons_of_ne_nil hne
      obtain ⟨-, hfirst, -⟩ := validateComponent_ok (h.valid first (hcons ▸ mem_cons_self))
      rw [h.text, hcons]
      cases rest <;> simp [joinPath, hfirst]
    rw [joinPath_concat hne, ← h.text, if_neg (by simpa using hfull)]

theorem RelativePath.wf_root (limits : SandboxLimits) : root.Wf limits where
  text := rfl
  valid := by simp [root]
  noSlash := by simp [root]
  count := Nat.zero_le _
  size := Nat.zero_le _

/-- A path without separators in its components, and without a tilde in front. -/
structure RelativePath.Plain (path : RelativePath) : Prop where
  noBackslash : ∀ component ∈ path.components, '\\' ∉ component
  noTilde : ∀ first ∈ path.components.head?, first.head? ≠ some '~'

variable {path : RelativePath}

theorem parseRelative_ok {input : Text} (h : parseRelative input limits = .ok path) :
    path.Wf limits ∧ path.Plain ∧ path.components ≠ [] := by
  unfold parseRelative at h
  dsimp only at h
  repeat' split at h
  all_goals try cases h
  rename_i htilde hcount _ components hchecked hsize
  obtain ⟨rfl, hvalid⟩ := validateComponents_iff.mp hchecked
  have hclear : ∀ component ∈ input.splitOnP isSeparator, ∀ c ∈ component, isSeparator c = false :=
    fun component hmem => eq_false_of_mem_splitOnP hmem
  refine ⟨⟨rfl, hvalid, ?_, by simpa using hcount, by simpa using hsize⟩, ⟨?_, ?_⟩,
    splitOnP_ne_nil _ _⟩
  · intro component hmem hslash
    exact absurd (hclear component hmem '/' hslash) (by decide)
  · intro component hmem hslash
    exact absurd (hclear component hmem '\\' hslash) (by decide)
  · intro first hfirst
    rcases hpieces : input.splitOnP isSeparator with _ | ⟨piece, rest⟩
    · exact absurd hpieces (splitOnP_ne_nil _ _)
    rw [hpieces] at hfirst hvalid
    cases hfirst
    obtain ⟨-, hne, -⟩ := validateComponent_ok (hvalid first mem_cons_self)
    rw [head?_of_splitOnP_cons hpieces hne]
    exact htilde

theorem RelativePath.Plain.noSeparator (hplain : path.Plain) (hwf : path.Wf limits) :
    ∀ component ∈ path.components, ∀ c ∈ component, isSeparator c = false := by
  intro component hmem c hc
  have hslash : c ≠ '/' := fun heq => hwf.noSlash component hmem (heq ▸ hc)
  have hbackslash : c ≠ '\\' := fun heq => hplain.noBackslash component hmem (heq ▸ hc)
  simp [isSeparator, hslash, hbackslash]

theorem parseRelative_of_plain
    (hwf : path.Wf limits) (hplain : path.Plain) (hne : path.components ≠ []) :
    parseRelative path.normalized limits = .ok path := by
  have hclear := hplain.noSeparator hwf
  obtain ⟨components, normalized⟩ := path
  obtain ⟨htext, hvalid, -, hcount, hsize⟩ := hwf
  dsimp only at htext hvalid hcount hsize hne hclear
  subst htext
  have hpieces : (joinPath components).splitOnP isSeparator = components :=
    splitOnP_intercalate (by decide) hne hclear
  -- The text begins as its first component does.
  obtain ⟨first, rest, rfl⟩ := exists_cons_of_ne_nil hne
  obtain ⟨-, hfirst, -⟩ := validateComponent_ok (hvalid first mem_cons_self)
  have hhead : (joinPath (first :: rest)).head? = first.head? :=
    (head?_of_splitOnP_cons hpieces hfirst).symm
  obtain ⟨c, tail, rfl⟩ := exists_cons_of_ne_nil hfirst
  have hc := hclear _ mem_cons_self c mem_cons_self
  have hempty : ¬(joinPath ((c :: tail) :: rest)).isEmpty = true := by
    intro h
    rw [isEmpty_iff.mp h] at hhead
    cases hhead
  have hcontrol : ¬(joinPath ((c :: tail) :: rest)).any isControl = true := by
    rw [any_eq_true]
    rintro ⟨x, hx, hbad⟩
    obtain ⟨component, hmem, hin⟩ | rfl := mem_joinPath hx
    · obtain ⟨-, -, hclean, -⟩ := validateComponent_ok (hvalid component hmem)
      exact any_eq_false.mp hclean x hin hbad
    · exact absurd hbad (by decide)
  have hsep : ¬((joinPath ((c :: tail) :: rest)).head? = some '/' ∨
      (joinPath ((c :: tail) :: rest)).head? = some '\\') := by
    rw [hhead]
    rintro (h | h)
    · cases h
      exact absurd hc (by decide)
    · cases h
      exact absurd hc (by decide)
  have htilde : ¬(joinPath ((c :: tail) :: rest)).head? = some '~' := by
    rw [hhead]
    exact hplain.noTilde (c :: tail) rfl
  have hvalidated : validateComponents limits 0 ((c :: tail) :: rest) = .ok ((c :: tail) :: rest) :=
    validateComponents_iff.mpr ⟨rfl, hvalid⟩
  simp only [parseRelative, hpieces, if_neg hempty, if_neg (not_lt.mpr hsize), if_neg hcontrol,
    if_neg hsep, if_neg htilde, if_neg (not_lt.mpr hcount), hvalidated]

namespace Sandbox

variable {sandbox : Sandbox}

theorem childOf_ok {parent child : RelativePath} {name : Text}
    (h : sandbox.childOf parent name = .ok child) (hparent : parent.Wf sandbox.limits)
    (hslash : '/' ∉ name) :
    child.Wf sandbox.limits ∧ child.components = parent.components ++ [name] := by
  unfold childOf at h
  cases hvalid : validateComponent name 0 sandbox.limits with
  | error error =>
    rw [hvalid] at h
    cases h
  | ok component =>
    obtain ⟨rfl, -⟩ := validateComponent_ok hvalid
    rw [hvalid] at h
    dsimp only at h
    split at h
    · cases h
    split at h
    · cases h
    rename_i hsize
    cases h
    refine ⟨⟨hparent.childText _,
      forall_mem_append.mpr ⟨hparent.valid, forall_mem_singleton.mpr hvalid⟩,
      forall_mem_append.mpr ⟨hparent.noSlash, forall_mem_singleton.mpr hslash⟩, ?_,
      by simpa using hsize⟩, rfl⟩
    rw [length_append, length_singleton]
    omega

variable {entries : List DirectoryEntry}

theorem enumerateDirectory_ok (h : sandbox.enumerateDirectory path = .ok entries) :
    ∀ entry ∈ entries, ∃ name : FileName, sandbox.childOf path name.text = .ok entry.path := by
  unfold enumerateDirectory at h
  split at h
  · cases h
  split at h
  · cases h
  refine foldlM_inv (I := fun entries => ∀ entry ∈ entries, ∃ name : FileName,
    sandbox.childOf path name.text = .ok entry.path) ?_ (by simp) h
  intro entries found next _ hentries hnext
  unfold entry at hnext
  split at hnext
  · cases hnext
    exact hentries
  rename_i child hchild
  split at hnext
  · cases hnext
  cases hnext
  exact forall_mem_append.mpr ⟨hentries, forall_mem_singleton.mpr ⟨found.1, hchild⟩⟩

theorem mem_readDirectory (h : sandbox.enumerateDirectory path = .ok entries) :
    ∃ sorted, sandbox.readDirectory path = .ok sorted ∧
      ∀ entry, entry ∈ sorted ↔ entry ∈ entries := by
  refine ⟨_, by rw [readDirectory, h]; rfl, fun entry => ?_⟩
  exact mem_insertionSort _

/-- The paths a caller can hold: the root, what `relative` accepts, what a listing returns,
and their parents. -/
inductive Obtained (sandbox : Sandbox) : RelativePath → Prop where
  | root : Obtained sandbox .root
  | parsed {input : Text} {path : RelativePath} (accepted : sandbox.relative input = .ok path) :
      Obtained sandbox path
  | listed {path : RelativePath} {entries : List DirectoryEntry} {entry : DirectoryEntry}
      (directory : Obtained sandbox path) (read : sandbox.readDirectory path = .ok entries)
      (mem : entry ∈ entries) : Obtained sandbox entry.path
  | parent {path up : RelativePath} (below : Obtained sandbox path) (above : path.parent = some up) :
      Obtained sandbox up

/-- A path that `read_directory` returns. -/
def Listed (sandbox : Sandbox) (path : RelativePath) : Prop :=
  ∃ directory entries entry, sandbox.Obtained directory ∧
    sandbox.readDirectory directory = .ok entries ∧ entry ∈ entries ∧ entry.path = path

/-- A path that `walk_files` returns. -/
def Walked (sandbox : Sandbox) (path : RelativePath) : Prop :=
  ∃ directory paths, sandbox.Obtained directory ∧
    sandbox.walkFiles directory = .ok paths ∧ path ∈ paths

theorem wf_parent {up : RelativePath} (h : path.Wf sandbox.limits)
    (hup : path.parent = some up) : up.Wf sandbox.limits := by
  unfold parent at hup
  split at hup
  · cases hup
  rename_i hcount
  cases hup
  have hne : path.components ≠ [] := by
    intro hnil
    rw [hnil] at hcount
    exact hcount (Nat.zero_le _)
  have hshort : path.components.dropLast ≠ [] := by
    intro hnil
    have hlength := congrArg length hnil
    rw [length_dropLast, length_nil] at hlength
    omega
  have hsplit := dropLast_concat_getLast hne
  refine ⟨rfl, fun c hmem => h.valid c (mem_of_mem_dropLast hmem),
    fun c hmem => h.noSlash c (mem_of_mem_dropLast hmem), ?_, ?_⟩
  · have hle := h.count
    rw [length_dropLast]
    omega
  · have hsize := h.size
    rw [h.text, ← hsplit, joinPath_concat hshort, utf8Len_append, utf8Len_append] at hsize
    show utf8Len (joinPath path.components.dropLast) ≤ _
    omega

/-- What a listing of a directory returns is in order, and a name behind its directory. -/
theorem listed_wf (h : path.Wf sandbox.limits)
    (hread : sandbox.readDirectory path = .ok entries) {entry : DirectoryEntry} (hmem : entry ∈ entries) :
    entry.path.Wf sandbox.limits ∧
      entry.path.components = path.components ++ [entry.path.fileName] := by
  obtain ⟨unsorted, hunsorted, rfl⟩ := map_ok hread
  have hmem := (mem_insertionSort _).mp hmem
  obtain ⟨name, hname⟩ := enumerateDirectory_ok hunsorted entry hmem
  obtain ⟨hwf, hcomponents⟩ := childOf_ok hname h name.noSlash
  refine ⟨hwf, ?_⟩
  simp [RelativePath.fileName, hcomponents]

theorem Obtained.wf (h : sandbox.Obtained path) : path.Wf sandbox.limits := by
  induction h with
  | root => exact wf_root _
  | parsed accepted => exact (parseRelative_ok accepted).1
  | listed directory read mem ih => exact (listed_wf ih read mem).1
  | parent below above ih => exact wf_parent ih above

/-- The walk holds directories it may list, and files that listings have returned. -/
structure Walk.Sound (sandbox : Sandbox) (walk : Walk) : Prop where
  queue : ∀ path ∈ walk.queue, sandbox.Obtained path
  files : ∀ path ∈ walk.files, sandbox.Listed path

theorem walkPass_sound {walk next : Walk} (hwalk : Walk.Sound sandbox walk)
    (h : sandbox.walkPass walk = .ok (.inl next)) : Walk.Sound sandbox next := by
  unfold walkPass at h
  split at h
  · cases h
  rename_i current queue hqueue
  split at h
  · cases h
  rename_i entries hentries
  obtain ⟨last, hlast, heq⟩ := map_ok h
  cases heq
  have hcurrent : sandbox.Obtained current := hwalk.queue current (hqueue ▸ mem_cons_self)
  have hrest : Walk.Sound sandbox { walk with queue } :=
    ⟨fun path hmem => hwalk.queue path (hqueue ▸ mem_cons_of_mem _ hmem), hwalk.files⟩
  obtain ⟨sorted, hsorted, hmem⟩ := mem_readDirectory hentries
  refine foldlM_inv (I := Walk.Sound sandbox) ?_ hrest hlast
  intro walk entry next hentry hwalk hstep
  have hin := (hmem entry).mpr hentry
  have hlisted : sandbox.Listed entry.path := ⟨current, sorted, entry, hcurrent, hsorted, hin, rfl⟩
  unfold walkEntry at hstep
  dsimp only at hstep
  split at hstep
  · cases hstep
  split at hstep
  · cases hstep
    exact ⟨hwalk.queue, forall_mem_append.mpr ⟨hwalk.files, forall_mem_singleton.mpr hlisted⟩⟩
  · cases hstep
    exact ⟨forall_mem_cons.mpr ⟨.listed hcurrent hsorted hin, hwalk.queue⟩, hwalk.files⟩
  · cases hstep
    exact ⟨hwalk.queue, hwalk.files⟩
  · cases hstep
    exact ⟨hwalk.queue, hwalk.files⟩

/-- Whatever the walk collects, a listing has returned. -/
theorem walked_listed (h : sandbox.Walked path) : sandbox.Listed path := by
  obtain ⟨directory, paths, hdirectory, hwalk, hpath⟩ := h
  have hall : ∀ paths, sandbox.walkFiles directory = .ok paths →
      ∀ path ∈ paths, sandbox.Listed path := by
    refine Loop.run_inv sandbox.walkLoop (P := Walk.Sound sandbox)
      (Q := fun result => ∀ paths, result = .ok paths → ∀ path ∈ paths, sandbox.Listed path)
      ?_ ?_ ⟨by simpa using hdirectory, by simp⟩
    · intro walk next hwalk hpass
      exact walkPass_sound hwalk (Loop.tryPass_inl.mp hpass)
    · rintro walk _ hwalk hexit paths rfl path hmem
      have hpass := Loop.tryPass_ok.mp hexit
      unfold walkPass at hpass
      split at hpass
      · cases hpass
        exact hwalk.files path ((mem_insertionSort _).mp hmem)
      split at hpass
      · cases hpass
      · obtain ⟨last, -, hlast⟩ := map_ok hpass
        cases hlast
  exact hall paths hwalk path hpath

/-! ## What comes back -/

/-- The text of the path, handed to `relative`, gives the same components, and none of
them holds a separator. -/
structure Usable (sandbox : Sandbox) (path : RelativePath) : Prop where
  relative : ∃ again, sandbox.relative path.normalized = .ok again ∧
    again.components = path.components
  noSeparator : ∀ component ∈ path.components, ∀ c ∈ component, isSeparator c = false

/-- No name that a listing returns has a backslash, and none in the root begins with a
tilde. -/
def PlainNames (sandbox : Sandbox) : Prop :=
  ∀ directory entries entry, sandbox.Obtained directory →
    sandbox.readDirectory directory = .ok entries → entry ∈ entries →
    '\\' ∉ entry.path.fileName ∧
      (directory.components = [] → entry.path.fileName.head? ≠ some '~')

theorem Obtained.plain (hnames : sandbox.PlainNames) (h : sandbox.Obtained path) : path.Plain := by
  induction h with
  | root => exact ⟨by simp [RelativePath.root], by simp [RelativePath.root]⟩
  | parsed accepted => exact (parseRelative_ok accepted).2.1
  | @listed path entries entry directory read mem ih =>
    obtain ⟨-, hcomponents⟩ := listed_wf directory.wf read mem
    obtain ⟨hbackslash, htilde⟩ := hnames path entries entry directory read mem
    refine ⟨?_, fun first hfirst => ?_⟩
    · rw [hcomponents]
      exact forall_mem_append.mpr ⟨ih.noBackslash, forall_mem_singleton.mpr hbackslash⟩
    · rw [hcomponents] at hfirst
      rcases hpath : path.components with _ | ⟨head, rest⟩
      · rw [hpath] at hfirst
        cases hfirst
        exact htilde hpath
      rw [hpath] at hfirst
      cases hfirst
      exact ih.noTilde first (by rw [hpath]; rfl)
  | @parent path up below above ih =>
    unfold RelativePath.parent at above
    split at above
    · cases above
    rename_i hcount
    cases above
    refine ⟨fun component hmem => ih.noBackslash component (mem_of_mem_dropLast hmem), ?_⟩
    intro first hfirst
    refine ih.noTilde first ?_
    rcases hpath : path.components with _ | ⟨head, _ | ⟨next, rest⟩⟩
    · simp [hpath] at hcount
    · simp [hpath] at hcount
    · rw [hpath] at hfirst
      exact hfirst

/-- Every path a listing or a walk returns can be used as text exactly if the names are
plain. -/
theorem listed_usable_iff (sandbox : Sandbox) :
    (∀ path, sandbox.Listed path ∨ sandbox.Walked path → sandbox.Usable path) ↔
      sandbox.PlainNames := by
  constructor
  · intro h directory entries entry hdirectory hread hmem
    obtain ⟨hwf, hcomponents⟩ := listed_wf hdirectory.wf hread hmem
    have husable := h entry.path (.inl ⟨directory, entries, entry, hdirectory, hread, hmem, rfl⟩)
    refine ⟨fun hbackslash => ?_, fun hroot htilde => ?_⟩
    · have hclear := husable.noSeparator _ (by simp [hcomponents]) '\\' hbackslash
      exact absurd hclear (by decide)
    · obtain ⟨again, hagain, -⟩ := husable.relative
      have htext : entry.path.normalized = entry.path.fileName := by
        rw [hwf.text, hcomponents, hroot]
        simp [joinPath]
      rw [htext] at hagain
      unfold Sandbox.relative parseRelative at hagain
      rw [if_pos htilde] at hagain
      repeat' split at hagain
      all_goals cases hagain
  · intro hnames path hpath
    obtain ⟨directory, entries, entry, hdirectory, hread, hmem, rfl⟩ := hpath.elim id walked_listed
    obtain ⟨hwf, hcomponents⟩ := listed_wf hdirectory.wf hread hmem
    have hplain := (Obtained.listed hdirectory hread hmem).plain hnames
    have hne : entry.path.components ≠ [] := by simp [hcomponents]
    exact ⟨⟨entry.path, parseRelative_of_plain hwf hplain hne, rfl⟩, hplain.noSeparator hwf⟩

/-- A directory with two names that a file system can hold. -/
def twoNames : Sandbox where
  limits := default
  files components :=
    if components = [] then
      .ok [(⟨"a\\b".toList, by decide, by decide⟩, .ok (.file, 1)),
        (⟨"~x".toList, by decide, by decide⟩, .ok (.file, 1))]
    else .error .notFound

/-- One of them comes back as two components, the other is refused. -/
theorem listed_not_usable :
    (twoNames.readDirectory .root).map (·.map (·.path)) =
      .ok [⟨["a\\b".toList], "a\\b".toList⟩, ⟨["~x".toList], "~x".toList⟩] ∧
    (twoNames.walkFiles .root).map (·.map (·.normalized)) = .ok ["a\\b".toList, "~x".toList] ∧
    twoNames.relative "a\\b".toList = .ok ⟨["a".toList, "b".toList], "a/b".toList⟩ ∧
    twoNames.relative "~x".toList = .error .absolutePathForbidden ∧
    ¬∀ path, twoNames.Listed path ∨ twoNames.Walked path → twoNames.Usable path := by
  have hread : twoNames.readDirectory .root =
      .ok [⟨⟨["a\\b".toList], "a\\b".toList⟩, .file, some 1⟩,
        ⟨⟨["~x".toList], "~x".toList⟩, .file, some 1⟩] := by
    decide +kernel
  refine ⟨by rw [hread]; rfl, by decide +kernel, by decide +kernel, by decide +kernel, ?_⟩
  intro h
  have husable := h _ (.inl ⟨.root, _, _, .root, hread, mem_cons_self, rfl⟩)
  exact absurd (husable.noSeparator _ mem_cons_self '\\' (by decide)) (by decide)

end Sandbox

end GtaClaw.Tools
