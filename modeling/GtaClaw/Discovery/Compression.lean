import GtaClaw.Discovery.Message

/-!
# Name compression

`NameAt bytes p labels hops stop` says what a reader that starts at `p` finds:
the labels, how many pointers it follows on the way, and where the message goes
on behind the name. It only mentions bytes that are there, so it survives
whatever is appended later. That is what makes a recorded offset good for the
rest of the message.

The decoder half is `decodeName_nameAt`: under the hop cap and the name budget
the only thing that can stop the decoder is the work budget, and it is charged
exactly `nameWork`.

The encoder half is `encodeName_writes`: what was written reads back as labels
with the same flattened key. Whether they are the *same labels* is decided by
`Layout.agrees`, an account of the encoder's memory that keeps the suffixes
themselves where the encoder keeps only their keys.
-/

namespace GtaClaw.Discovery

open Lib List

/-! ## What a reader finds -/

/-- A name stored at `p`, read through `hops` pointers, with the message going on at `stop`. -/
inductive NameAt (bytes : List UInt8) : Nat → List Label → Nat → Nat → Prop where
  | root {p : Nat} : bytes[p]? = some 0 → NameAt bytes p [] 0 (p + 1)
  | label {p hops stop : Nat} {label : Label} {rest : List Label} :
      label ≠ [] → label.length ≤ 63 →
      bytes[p]? = some (UInt8.ofNat label.length) →
      p + 1 + label.length ≤ bytes.length →
      slice bytes (p + 1) (p + 1 + label.length) = label →
      NameAt bytes (p + 1 + label.length) rest hops stop →
      NameAt bytes p (label :: rest) hops stop
  | pointer {p target hops stop : Nat} {labels : List Label} :
      target < p → target < 16384 →
      bytes[p]? = some (UInt8.ofNat (192 + target / 256)) →
      bytes[p + 1]? = some (UInt8.ofNat (target % 256)) →
      NameAt bytes target labels hops stop →
      NameAt bytes p labels (hops + 1) (p + 2)

theorem getElem?_append_of_some {α : Type} {xs more : List α} {i : Nat} {a : α}
    (h : xs[i]? = some a) : (xs ++ more)[i]? = some a := by
  rw [getElem?_append_left (List.getElem?_eq_some_iff.mp h).1, h]

variable {stop : Nat}

theorem slice_append_left {α : Type} {xs more : List α} {start : Nat}
    (h : stop ≤ xs.length) : slice (xs ++ more) start stop = slice xs start stop := by
  unfold slice
  rcases lt_or_ge xs.length start with hs | hs
  · rw [show stop - start = 0 by omega]; simp
  rw [drop_append_of_le_length hs, take_append_of_le_length]
  rw [length_drop]
  omega

variable {bytes : List UInt8} {hops : Nat} {labels : List Label} {p : Nat} {s : NameState}

section

variable (h : NameAt bytes p labels hops stop)
include h

/-- **Appending never disturbs a stored name.** -/
theorem nameAt_append (more : List UInt8) :
    NameAt (bytes ++ more) p labels hops stop := by
  induction h with
  | root h0 => exact .root (getElem?_append_of_some h0)
  | label hne hlen h0 hfit hsl _ ih =>
    refine .label hne hlen (getElem?_append_of_some h0) ?_ ?_ ih
    · rw [length_append]; omega
    · rw [slice_append_left hfit, hsl]
  | pointer hlt h14 h0 h1 _ ih =>
    exact .pointer hlt h14 (getElem?_append_of_some h0) (getElem?_append_of_some h1) ih

theorem nameAt_lt : p < bytes.length := by
  cases h with
  | root h0 | label _ _ h0 _ _ _ | pointer _ _ h0 _ _ => exact (List.getElem?_eq_some_iff.mp h0).1

theorem nameAt_labels : ∀ label ∈ labels, label ≠ [] ∧ label.length ≤ 63 := by
  induction h with
  | root _ => simp
  | label hne hlen _ _ _ _ ih =>
    intro l hl
    rcases mem_cons.mp hl with hl | hl
    · exact hl ▸ ⟨hne, hlen⟩
    · exact ih l hl
  | pointer _ _ _ _ _ ih => exact ih

end

/-! ## What the decoder makes of it -/

/-- The work a name costs: one unit a length byte, two a pointer, `length + 8` a label. -/
def nameWork (labels : List Label) (hops : Nat) : Nat :=
  (labels.map (fun label => label.length + 9)).sum + 1 + 2 * hops

theorem consume_add (work : DecodeWork) (a b : Nat) :
    work.consume (a + b) = (work.consume a).bind (·.consume b) := by
  unfold DecodeWork.consume
  by_cases ha : a ≤ work.remaining
  · rw [if_pos ha]
    simp only [Except.bind]
    by_cases hb : b ≤ work.remaining - a
    · rw [if_pos hb, if_pos (by omega), Nat.sub_sub]
    · rw [if_neg hb, if_neg (by omega)]
  · rw [if_neg ha, if_neg (by omega)]
    rfl

theorem decodeNamePass_root (h : bytes[s.position]? = some 0) :
    decodeNamePass bytes s = (s.work.consume 1).map (fun work =>
      .inr (s.labels, if s.followedPointer then s.cursor else s.position + 1, work)) := by
  unfold decodeNamePass
  rw [h]
  cases hw : s.work.consume 1 with
  | error e | ok w => simp [okOr, bind, Except.bind, Except.map]

theorem decodeNamePass_label {label : Label} (hne : label ≠ []) (hlen : label.length ≤ 63)
    (h0 : bytes[s.position]? = some (UInt8.ofNat label.length))
    (hfit : s.position + 1 + label.length ≤ bytes.length)
    (hsl : slice bytes (s.position + 1) (s.position + 1 + label.length) = label)
    (hbudget : label.length + 1 ≤ s.budget) :
    decodeNamePass bytes s = (s.work.consume (label.length + 9)).map (fun work =>
      .inl { s with
        labels := s.labels ++ [label]
        position := s.position + 1 + label.length
        budget := s.budget - (label.length + 1)
        work := work }) := by
  have hpos : 0 < label.length := length_pos_iff.mpr hne
  have hto : (UInt8.ofNat label.length).toNat = label.length := by rw [UInt8.toNat_ofNat']; omega
  have htag : UInt8.ofNat label.length &&& 0xc0 = 0 := tag_clear label.length (by omega)
  have hwork : s.work.consume (label.length + 9)
      = (s.work.consume 1).bind (·.consume (label.length + 8)) := by
    rw [← consume_add]; congr 1; omega
  unfold decodeNamePass
  rw [h0, hwork]
  cases hw : s.work.consume 1 with
  | error e => simp [okOr, bind, Except.bind, Except.map]
  | ok w =>
    simp only [okOr, bind, Except.bind, htag, hto, decodeWorkPerLabel]
    rw [if_neg (by decide), if_neg (by decide), if_neg (by omega)]
    cases hw' : w.consume (label.length + 8) with
    | error e => simp [Except.map]
    | ok w' =>
      simp only [Except.map]
      rw [if_neg (by omega), if_neg (by omega), hsl]

theorem decodeNamePass_pointer {target : Nat} (hlt : target < s.position) (h14 : target < 16384)
    (h0 : bytes[s.position]? = some (UInt8.ofNat (192 + target / 256)))
    (h1 : bytes[s.position + 1]? = some (UInt8.ofNat (target % 256)))
    (hhops : s.pointerHops + 1 ≤ 128) :
    decodeNamePass bytes s = (s.work.consume 2).map (fun work =>
      .inl { s with
        position := target
        followedPointer := true
        cursor := if s.followedPointer then s.cursor else s.position + 2
        pointerHops := s.pointerHops + 1
        work := work }) := by
  obtain ⟨htag, hrest⟩ := tag_set (target / 256) (by omega)
  have htarget : (ofBeU16 (UInt8.ofNat (target / 256)) (UInt8.ofNat (target % 256))).toNat
      = target := by
    rw [ofBeU16_toNat, UInt8.toNat_ofNat', UInt8.toNat_ofNat']
    omega
  have hwork : s.work.consume 2 = (s.work.consume 1).bind (·.consume 1) := by rw [← consume_add]
  unfold decodeNamePass
  rw [h0, h1, hwork]
  cases hw : s.work.consume 1 with
  | error e => simp [okOr, bind, Except.bind, Except.map]
  | ok w =>
    simp only [okOr, bind, Except.bind, htag, hrest, if_true]
    cases hw' : w.consume 1 with
    | error e => simp [Except.map]
    | ok w' =>
      simp only [Except.map, htarget, maxCompressionPointerHops]
      rw [if_neg (by omega), if_neg (by omega)]

/-- **The decoder reads a stored name**, and charges exactly its work. -/
theorem decodeNameLoop_nameAt
    (h : NameAt bytes p labels hops stop) : ∀ s : NameState, s.position = p →
    encodedLen labels ≤ s.budget + 1 → s.pointerHops + hops ≤ 128 →
    (decodeNameLoop bytes).run s = (s.work.consume (nameWork labels hops)).map (fun work =>
      (s.labels ++ labels, if s.followedPointer then s.cursor else stop, work)) := by
  induction h with
  | root h0 =>
    intro s hp _ _
    subst hp
    have hpass := decodeNamePass_root h0
    have hwork : nameWork [] 0 = 1 := rfl
    rw [hwork]
    cases hw : s.work.consume 1 with rw [hw] at hpass
    | error e =>
      rw [decodeNameLoop, Loop.fallible_error hpass]
      rfl
    | ok w =>
      rw [decodeNameLoop, Loop.fallible_exit hpass]
      simp [Except.map]
  | @label p hops stop label rest hne hlen h0 hfit hsl _ ih =>
    intro s hp hbudget hhops
    subst hp
    have henc : encodedLen (label :: rest) = label.length + 1 + encodedLen rest := by
      simp [encodedLen]; omega
    have hone : 1 ≤ encodedLen rest := by simp [encodedLen]
    have hpass := decodeNamePass_label hne hlen h0 hfit hsl (by omega)
    have hwork : nameWork (label :: rest) hops = (label.length + 9) + nameWork rest hops := by
      simp [nameWork]; omega
    rw [hwork, consume_add]
    cases hw : s.work.consume (label.length + 9) with rw [hw] at hpass
    | error e =>
      rw [decodeNameLoop, Loop.fallible_error hpass]
      rfl
    | ok w =>
      rw [decodeNameLoop, Loop.fallible_pass hpass]
      refine (ih _ rfl ?_ ?_).trans ?_
      · dsimp only; omega
      · exact hhops
      · simp [Except.bind]
  | @pointer p target hops stop labels hlt h14 h0 h1 _ ih =>
    intro s hp hbudget hhops
    subst hp
    have hpass := decodeNamePass_pointer hlt h14 h0 h1 (by omega)
    have hwork : nameWork labels (hops + 1) = 2 + nameWork labels hops := by
      simp only [nameWork]; omega
    rw [hwork, consume_add]
    cases hw : s.work.consume 2 with rw [hw] at hpass
    | error e =>
      rw [decodeNameLoop, Loop.fallible_error hpass]
      rfl
    | ok w =>
      rw [decodeNameLoop, Loop.fallible_pass hpass]
      refine (ih _ rfl ?_ ?_).trans ?_
      · exact hbudget
      · dsimp only; omega
      · simp [Except.bind]

/--
`Costs decode start a stop cost`: from `start` the decoder returns `a` and goes
on at `stop` when `cost` units of work are left, and runs out of work otherwise.
Nothing else can happen to it.
-/
def Costs {α : Type} (decode : Nat → DecodeWork → Except DnsSdError (α × Nat × DecodeWork))
    (start : Nat) (a : α) (stop cost : Nat) : Prop :=
  ∀ work : DecodeWork, decode start work = (work.consume cost).map (fun work => (a, stop, work))

theorem decodeName_nameAt
    (h : NameAt bytes p labels hops stop) (hlen : encodedLen labels ≤ 255) (hhops : hops ≤ 128) :
    ∃ hv : validate labels = .ok (),
      Costs (decodeName bytes) p ⟨labels, hv⟩ stop (nameWork labels hops) := by
  have hv : validate labels = .ok () := validate_ok.mpr ⟨nameAt_labels h, hlen⟩
  refine ⟨hv, fun work => ?_⟩
  unfold decodeName
  rw [decodeNameLoop_nameAt h _ rfl (by simp only [maxNameBytes]; omega) (by simpa using hhops)]
  cases hw : work.consume (nameWork labels hops) with
  | error e => rfl
  | ok w =>
    simp only [Except.map, bind, Except.bind, nil_append, Name.fromLabels_of_valid hv]
    rfl

/-! ## What the encoder remembers -/

/-- The encoder's memory with the suffixes themselves in place of their keys. -/
structure Layout where
  length : Nat
  recorded : List (List Label)

/-- The recorded suffix whose key the encoder would find for these labels. -/
def Layout.known (t : Layout) (labels : List Label) : Option (List Label) :=
  t.recorded.find? (fun suffix => suffixKey suffix == suffixKey labels)

/-- The memory once a label has been written out at the front of `labels`. -/
def Layout.push (t : Layout) (label : Label) (rest : List Label) : Layout where
  length := t.length + 1 + label.length
  recorded := if t.length ≤ maxPointerOffset then (label :: rest) :: t.recorded else t.recorded

/-- The memory once a name has been written. -/
def Layout.writeName (t : Layout) : List Label → Layout
  | [] => { t with length := t.length + 1 }
  | label :: rest =>
    match t.known (label :: rest) with
    | some _ => { t with length := t.length + 2 }
    | none => (t.push label rest).writeName rest

/--
Whether the suffix the encoder points at, if any, has the labels it stands for.
Two suffixes can have one key: a label may itself contain the dot that the key
puts between labels.
-/
def Layout.agrees (t : Layout) : List Label → Bool
  | [] => true
  | label :: rest =>
    match t.known (label :: rest) with
    | some suffix => foldCase suffix == foldCase (label :: rest)
    | none => (t.push label rest).agrees rest

theorem suffixKey_length (labels : List Label) :
    (suffixKey labels).length + 1 = encodedLen labels := by
  induction labels with
  | nil => rfl
  | cons label rest ih =>
    simp only [suffixKey, length_append, length_map, length_singleton]
    simp only [encodedLen, map_cons, sum_cons] at ih ⊢
    omega

theorem suffixKey_lt (label : Label) (rest : List Label) :
    (suffixKey rest).length < (suffixKey (label :: rest)).length := by
  simp [suffixKey]; omega

/-- What an entry of the offset table promises a reader of `out`. -/
def EntryAt (good : Prop) (out : List UInt8) (entry : List UInt8 × UInt16)
    (suffix : List Label) : Prop :=
  entry.1 = suffixKey suffix ∧ entry.2.toNat < 16384 ∧
    ∃ (reads : List Label) (hops stop : Nat), NameAt out entry.2.toNat reads hops stop
      ∧ suffixKey reads = suffixKey suffix ∧ hops < reads.length
      ∧ (good → foldCase reads = foldCase suffix)

/-- The offset table and the recorded suffixes, entry by entry. -/
def Table (good : Prop) (out : List UInt8) (offsets : Offsets) (recorded : List (List Label)) :
    Prop :=
  List.Forall₂ (EntryAt good out) offsets recorded

variable {good : Prop} {out : List UInt8}

theorem entryAt_append {good' : Prop} (hg : good' → good)
    {entry : List UInt8 × UInt16} {suffix : List Label} (h : EntryAt good out entry suffix)
    (more : List UInt8) : EntryAt good' (out ++ more) entry suffix := by
  obtain ⟨h1, h2, reads, hops, stop, hat, hkey, hhops, hsame⟩ := h
  exact ⟨h1, h2, reads, hops, stop, nameAt_append hat more, hkey, hhops, fun h => hsame (hg h)⟩

variable {offsets : Offsets} {t : Layout} {recorded : List (List Label)}

theorem table_append {good' : Prop} (hg : good' → good) (h : Table good out offsets recorded)
    (more : List UInt8) : Table good' (out ++ more) offsets recorded :=
  h.imp (fun _ _ he => entryAt_append hg he more)

/-- Looking a key up in the table and in the recorded suffixes comes to the same. -/
theorem lookup_known {R : List UInt8 × UInt16 → List Label → Prop} (key : List UInt8)
    (hR : ∀ entry suffix, R entry suffix → entry.1 = suffixKey suffix)
    (h : List.Forall₂ R offsets recorded) :
    (offsets.lookup key = none
        ∧ recorded.find? (fun suffix => suffixKey suffix == key) = none)
      ∨ ∃ offset suffix, offsets.lookup key = some offset
        ∧ recorded.find? (fun suffix => suffixKey suffix == key) = some suffix
        ∧ suffixKey suffix = key ∧ R (key, offset) suffix := by
  induction h with
  | nil => exact Or.inl ⟨rfl, rfl⟩
  | @cons entry suffix offsets recorded he _ ih =>
    have hkey := hR entry suffix he
    obtain ⟨k, offset⟩ := entry
    subst hkey
    by_cases hk : suffixKey suffix = key
    · subst hk
      exact Or.inr ⟨offset, suffix, by simp, by simp, rfl, he⟩
    have hk' : (key == suffixKey suffix) = false := by simpa using fun h => hk h.symm
    have hf : (suffixKey suffix == key) = false := by simpa using hk
    rw [lookup_cons, hk', find?_cons, hf]
    exact ih

/-- An entry whose rest is still to be written, or one that already reads back. -/
def EntryOrLonger (good : Prop) (out : List UInt8) (labels : List Label)
    (entry : List UInt8 × UInt16) (suffix : List Label) : Prop :=
  entry.1 = suffixKey suffix
    ∧ ((suffixKey labels).length < (suffixKey suffix).length ∨ EntryAt good out entry suffix)

/-- What writing one name does to the bytes, to the table and to the memory. -/
structure NameWritten (good : Prop) (out : List UInt8) (labels : List Label) (offsets : Offsets)
    (t : Layout) (more : List UInt8) (entries : Offsets) (suffixes : List (List Label))
    (reads : List Label) (hops : Nat) : Prop where
  encode : encodeName out labels offsets = (out ++ more, entries ++ offsets)
  layout : t.writeName labels = ⟨t.length + more.length, suffixes ++ t.recorded⟩
  table : Table (good ∧ t.agrees labels = true) (out ++ more) entries suffixes
  stored : NameAt (out ++ more) out.length reads hops (out.length + more.length)
  key : suffixKey reads = suffixKey labels
  hops_le : hops ≤ reads.length
  pos : 0 < more.length
  /-- While the table is faithful, the name reads back exactly when its suffix agrees. -/
  same : good → (foldCase reads = foldCase labels ↔ t.agrees labels = true)

open Layout

theorem nameWritten_nil (good : Prop) (out : List UInt8) (offsets : Offsets) (t : Layout) :
    NameWritten good out [] offsets t [0] [] [] [] 0 where
  encode := rfl
  layout := rfl
  table := .nil
  stored := .root (by simp)
  key := rfl
  hops_le := by omega
  pos := by simp
  same := fun _ => by simp [agrees]

/-- The encoder finds the key: two pointer bytes, and the reader follows them. -/
theorem nameWritten_pointer {label : Label} {rest suffix : List Label} {offset : UInt16}
    (hl : offsets.lookup (suffixKey (label :: rest)) = some offset)
    (hk : t.known (label :: rest) = some suffix)
    (he : EntryAt good out (suffixKey (label :: rest), offset) suffix) :
    ∃ reads hops, NameWritten good out (label :: rest) offsets t (beU16 (offset ||| 0xc000)) [] []
      reads hops := by
  obtain ⟨hkey, h14, reads, hops, stop, hat, hreads, hhops, hsame⟩ := he
  refine ⟨reads, hops + 1, ?_, ?_, .nil, ?_, ?_, hhops, by simp, ?_⟩
  · rw [encodeName, hl]; rfl
  · rw [writeName, hk]; rfl
  · have hhi : (49152 + offset.toNat) / 256 = 192 + offset.toNat / 256 := by omega
    have hlo : (49152 + offset.toNat) % 256 = offset.toNat % 256 := by omega
    rw [beU16, tag_toNat h14, hhi, hlo]
    refine .pointer (nameAt_lt hat) h14 ?_ ?_ (nameAt_append hat _)
    · rw [getElem?_append_right le_rfl]; simp
    · rw [getElem?_append_right (by omega)]; simp
  · rw [hreads, ← hkey]
  · intro hgood
    rw [agrees, hk, beq_iff_eq, hsame hgood]

variable {suffixes : List (List Label)} {reads : List Label} {more : List UInt8} {entries : Offsets}

/-- The encoder writes a label out: the reader reads it and goes on behind it. -/
theorem nameWritten_label {label : Label} {rest : List Label}
    (hne : label ≠ []) (hlen : label.length ≤ 63) (htl : t.length = out.length)
    (hl : offsets.lookup (suffixKey (label :: rest)) = none) (hk : t.known (label :: rest) = none)
    {offsets' : Offsets} (hoff : offsets' = if out.length ≤ maxPointerOffset then
      (suffixKey (label :: rest), (u16TryFrom out.length).getD 0xffff) :: offsets else offsets)
    (hw : NameWritten good (out ++ [UInt8.ofNat label.length] ++ label) rest offsets'
      (t.push label rest) more entries suffixes reads hops) :
    ∃ entries' suffixes', NameWritten good out (label :: rest) offsets t
      ([UInt8.ofNat label.length] ++ label ++ more) entries' suffixes' (label :: reads) hops := by
  have hlb : (u8TryFrom label.length).getD 255 = UInt8.ofNat label.length := by
    rw [u8TryFrom_of_lt (by omega)]; rfl
  have hagrees : t.agrees (label :: rest) = (t.push label rest).agrees rest := by rw [agrees, hk]
  have hbytes : out ++ ([UInt8.ofNat label.length] ++ label ++ more)
      = out ++ [UInt8.ofNat label.length] ++ label ++ more := by simp
  have hpos : out.length + 1 + label.length
      = (out ++ [UInt8.ofNat label.length] ++ label).length := by simp; omega
  have hstored : NameAt (out ++ ([UInt8.ofNat label.length] ++ label ++ more)) out.length
      (label :: reads) hops
      (out.length + ([UInt8.ofNat label.length] ++ label ++ more).length) := by
    have hstop : out.length + ([UInt8.ofNat label.length] ++ label ++ more).length
        = (out ++ [UInt8.ofNat label.length] ++ label).length + more.length := by simp; omega
    rw [hbytes, hstop]
    refine .label hne hlen ?_ ?_ ?_ ?_
    · simp
    · simp only [length_append, length_singleton]; omega
    · have := slice_append (out ++ [UInt8.ofNat label.length]) label more
      simpa using this
    · rw [hpos]; exact hw.stored
  have hkey : suffixKey (label :: reads) = suffixKey (label :: rest) := by
    rw [suffixKey, suffixKey, hw.key]
  have hsame : good → (foldCase (label :: reads) = foldCase (label :: rest)
      ↔ t.agrees (label :: rest) = true) := by
    intro hgood
    rw [hagrees, ← hw.same hgood]
    simp [foldCase]
  have hhops : hops < (label :: reads).length := Nat.lt_succ_of_le hw.hops_le
  -- the suffix just written, if it is recorded, is complete now
  obtain ⟨added, kept, hadded, hkept, hnew⟩ : ∃ added kept, offsets' = added ++ offsets
      ∧ (t.push label rest).recorded = kept ++ t.recorded
      ∧ Table (good ∧ t.agrees (label :: rest) = true)
        (out ++ ([UInt8.ofNat label.length] ++ label ++ more)) added kept := by
    rw [hoff, push, htl]
    split_ifs with hbase
    · have hlt : out.length < 16384 := Nat.lt_succ_of_le hbase
      have hto : (UInt16.ofNat out.length).toNat = out.length := by rw [UInt16.toNat_ofNat']; omega
      rw [u16TryFrom_of_lt (by omega)]
      refine ⟨[(_, UInt16.ofNat out.length)], [label :: rest], rfl, rfl, .cons ?_ .nil⟩
      have hat := hstored
      rw [← hto] at hat
      exact ⟨rfl, by rw [hto]; exact hlt, label :: reads, hops, _, hat, hkey, hhops,
        fun hg => (hsame hg.1).mpr hg.2⟩
    · exact ⟨[], [], rfl, rfl, .nil⟩
  refine ⟨entries ++ added, suffixes ++ kept, ?_, ?_, rel_append ?_ hnew, hstored, hkey, hhops.le,
    by simp, hsame⟩
  · rw [encodeName, hl]
    rw [hlb, ← hoff, hw.encode, hbytes, hadded, ← append_assoc entries]
  · rw [writeName, hk]
    rw [hw.layout, hkept]
    simp [push]
    omega
  · rw [hagrees, hbytes]
    exact hw.table

/--
**Writing a name.** The induction runs over the labels with the encoder's own
entries in the table: those for the suffixes being written are longer than
anything still to be looked up, so they are never hit before they are complete.
-/
theorem encodeName_pending (good : Prop) : ∀ labels out offsets t,
    (∀ label ∈ labels, label ≠ [] ∧ label.length ≤ 63) →
    t.length = out.length →
    List.Forall₂ (EntryOrLonger good out labels) offsets t.recorded →
    ∃ more entries suffixes reads hops,
      NameWritten good out labels offsets t more entries suffixes reads hops
  | [], out, offsets, t, _, _, _ => ⟨_, _, _, _, _, nameWritten_nil good out offsets t⟩
  | label :: rest, out, offsets, t, hvalid, htl, htab => by
    have hlabel := hvalid label (mem_cons_self ..)
    have hrest : ∀ l ∈ rest, l ≠ [] ∧ l.length ≤ 63 := (forall_mem_cons.mp hvalid).2
    have hshort := suffixKey_lt label rest
    rcases lookup_known (suffixKey (label :: rest)) (fun _ _ h => h.1) htab with
      ⟨hl, hk⟩ | ⟨offset, suffix, hl, hk, hkey, _, hentry⟩
    · have hold : List.Forall₂
          (EntryOrLonger good (out ++ [UInt8.ofNat label.length] ++ label) rest)
          offsets t.recorded := by
        refine htab.imp (fun entry suffix he => ⟨he.1, ?_⟩)
        rcases he.2 with hlong | hat
        · exact Or.inl (by omega)
        · rw [append_assoc]
          exact Or.inr (entryAt_append id hat _)
      have hnew : List.Forall₂
          (EntryOrLonger good (out ++ [UInt8.ofNat label.length] ++ label) rest)
          (if out.length ≤ maxPointerOffset then
            (suffixKey (label :: rest), (u16TryFrom out.length).getD 0xffff) :: offsets
            else offsets) (t.push label rest).recorded := by
        rw [push, htl]
        split
        · exact .cons ⟨rfl, Or.inl hshort⟩ hold
        · exact hold
      have hlen : (t.push label rest).length
          = (out ++ [UInt8.ofNat label.length] ++ label).length := by
        simp [push]; omega
      obtain ⟨more, entries, suffixes, reads, hops, hw⟩ :=
        encodeName_pending good rest _ _ _ hrest hlen hnew
      obtain ⟨entries', suffixes', hw'⟩ := nameWritten_label hlabel.1 hlabel.2 htl hl hk rfl hw
      exact ⟨_, _, _, _, _, hw'⟩
    · rcases hentry with hlong | hat
      · exact absurd hlong (by rw [hkey]; exact lt_irrefl _)
      obtain ⟨reads, hops, hw⟩ :=
        nameWritten_pointer hl (show t.known (label :: rest) = some suffix from hk) hat
      exact ⟨_, _, _, _, _, hw⟩

/-- The bytes written and the memory kept tell the same story. -/
structure Sync (good : Prop) (out : List UInt8) (offsets : Offsets) (t : Layout) : Prop where
  length : t.length = out.length
  table : Table good out offsets t.recorded

/-- **Writing a name behind a consistent table.** -/
theorem encodeName_writes (hs : Sync good out offsets t) (n : Name) :
    ∃ more entries suffixes reads hops,
      NameWritten good out n.labels offsets t more entries suffixes reads hops :=
  encodeName_pending good n.labels out offsets t n.labels_valid hs.length
    (hs.table.imp (fun _ _ h => ⟨h.1, Or.inr h⟩))

/-- Afterwards the table is consistent again, and faithful if the name agreed. -/
theorem NameWritten.sync
    (hw : NameWritten good out labels offsets t more entries suffixes reads hops)
    (hs : Sync good out offsets t) :
    Sync (good ∧ t.agrees labels = true) (out ++ more) (entries ++ offsets)
      (t.writeName labels) := by
  refine ⟨?_, ?_⟩
  · rw [hw.layout, length_append, ← hs.length]
  · rw [hw.layout]
    exact rel_append hw.table (table_append And.left hs.table more)

/-- A name written with nothing to point at is written out in full. -/
theorem fresh_layout : ∀ (labels : List Label) (t : Layout),
    (∀ suffix ∈ t.recorded, (suffixKey labels).length < (suffixKey suffix).length) →
    t.agrees labels = true ∧ (t.writeName labels).length = t.length + encodedLen labels
  | [], t, _ => ⟨rfl, rfl⟩
  | label :: rest, t, h => by
    have hk : t.known (label :: rest) = none := by
      refine find?_eq_none.mpr (fun suffix hsuffix heq => ?_)
      have := h suffix hsuffix
      rw [beq_iff_eq.mp heq] at this
      omega
    have hshort := suffixKey_lt label rest
    have hpush : ∀ suffix ∈ (t.push label rest).recorded,
        (suffixKey rest).length < (suffixKey suffix).length := by
      intro suffix hsuffix
      unfold push at hsuffix
      split at hsuffix
      · rcases mem_cons.mp hsuffix with hsuffix | hsuffix
        · exact hsuffix ▸ hshort
        · exact hshort.trans (h suffix hsuffix)
      · exact hshort.trans (h suffix hsuffix)
    obtain ⟨h1, h2⟩ := fresh_layout rest (t.push label rest) hpush
    rw [agrees, writeName, hk]
    refine ⟨h1, h2.trans ?_⟩
    simp [push, encodedLen]
    omega

/-- What the encoder writes for a name depends on the bytes before it only through their number. -/
theorem encodeName_congr : ∀ labels n offsets,
    ∃ more offsets', ∀ out : List UInt8, out.length = n →
      encodeName out labels offsets = (out ++ more, offsets')
  | [], _, offsets => ⟨[0], offsets, fun _ _ => rfl⟩
  | label :: rest, n, offsets => by
    cases hl : offsets.lookup (suffixKey (label :: rest)) with
    | some offset => exact ⟨beU16 (offset ||| 0xc000), offsets, fun _ _ => by rw [encodeName, hl]⟩
    | none =>
      obtain ⟨more, offsets', h⟩ := encodeName_congr rest (n + (label.length + 1))
        (if n ≤ maxPointerOffset then
          (suffixKey (label :: rest), (u16TryFrom n).getD 0xffff) :: offsets
          else offsets)
      refine ⟨[(u8TryFrom label.length).getD 255] ++ label ++ more, offsets', ?_⟩
      intro out hn
      rw [encodeName, hl]
      rw [hn, h _ (by simp [hn])]
      simp

theorem two_mul_length_le (hne : ∀ label ∈ labels, label ≠ [] ∧ label.length ≤ 63) :
    2 * labels.length ≤ encodedLen labels := by
  induction labels with
  | nil => simp
  | cons label rest ih =>
    have hpos := length_pos_iff.mpr (hne label (mem_cons_self ..)).1
    have := ih (forall_mem_cons.mp hne).2
    simp only [encodedLen, map_cons, sum_cons, length_cons] at this ⊢
    omega

theorem nameWork_eq (labels : List Label) (hops : Nat) :
    nameWork labels hops = encodedLen labels + 8 * labels.length + 2 * hops := by
  unfold nameWork encodedLen
  induction labels with
  | nil => simp
  | cons label rest ih =>
    simp only [map_cons, sum_cons, length_cons]
    omega

/-- **A name the encoder wrote is read back**, in any message that begins with these bytes. -/
theorem NameWritten.reads_back {n : Name}
    (hw : NameWritten good out n.labels offsets t more entries suffixes reads hops) :
    ∃ n' cost, cost ≤ 6 * encodedLen n.labels
      ∧ (∀ tail, Costs (decodeName (out ++ more ++ tail)) out.length n'
          (out.length + more.length) cost)
      ∧ (good → ((n' == n) = true ↔ t.agrees n.labels = true)) := by
  have hlen : encodedLen reads = encodedLen n.labels := by
    rw [← suffixKey_length, hw.key, suffixKey_length]
  have h255 : encodedLen reads ≤ 255 := hlen ▸ n.encodedLen_le
  have hlabels := nameAt_labels hw.stored
  -- every label costs two bytes of the 255, so the hop cap is out of reach
  have hcount := two_mul_length_le hlabels
  have hhops : hops ≤ 128 := by have := hw.hops_le; omega
  obtain ⟨hv, _⟩ := decodeName_nameAt hw.stored h255 hhops
  refine ⟨⟨reads, hv⟩, nameWork reads hops, ?_, ?_, ?_⟩
  · have := hw.hops_le
    rw [← hlen, nameWork_eq]
    omega
  · intro tail
    exact (decodeName_nameAt (nameAt_append hw.stored tail) h255 hhops).2
  · intro hgood
    rw [Name.beq_iff]
    exact hw.same hgood

end GtaClaw.Discovery
