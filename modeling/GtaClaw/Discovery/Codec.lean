import GtaClaw.Discovery.RoundTrip
import GtaClaw.Lib.Strings

/-!
# The message codec against itself

What a peer running the same codec makes of a message: when it reads the same
message back, and when it refuses to read it at all.

Faithfulness hangs on the suffix keys alone, and the keys separate suffixes as
long as no label contains the dot they are joined with. Refusal hangs on the
work budget alone: the section counts, the pointer rules and the name length
never stand in the way of a message this encoder wrote.
-/

namespace GtaClaw.Discovery

open Lib Layout List

/-! ## Keys of labels without dots -/

/-- No label contains the byte that joins labels into a key. -/
def Dotless (labels : List Label) : Prop := ∀ label ∈ labels, (46 : UInt8) ∉ label

theorem eq_dot_of_lowercase {b : UInt8} (h : toAsciiLowercase b = 46) : b = 46 := by
  unfold toAsciiLowercase at h
  split_ifs at h with hrange
  · have h' := congrArg UInt8.toNat h
    simp only [UInt8.le_iff_toNat_le, UInt8.toNat_add, UInt8.reduceToNat] at hrange h'
    omega
  · exact h

theorem dot_notMem_lowercase {label : Label} (h : (46 : UInt8) ∉ label) :
    ∀ b ∈ label.map toAsciiLowercase, ¬b = 46 :=
  forall_mem_map.mpr fun _ hb heq => h (eq_dot_of_lowercase heq ▸ hb)

theorem suffixKey_inj : ∀ {labels labels' : List Label}, Dotless labels → Dotless labels' →
    suffixKey labels = suffixKey labels' → foldCase labels = foldCase labels'
  | [], [], _, _, _ => rfl
  | [], _ :: _, _, _, h | _ :: _, [], _, _, h => by simp [suffixKey] at h
  | label :: rest, label' :: rest', hd, hd', h => by
    rw [suffixKey, suffixKey, append_assoc, append_assoc] at h
    obtain ⟨hl, -, hr⟩ := append_mark_inj (dot_notMem_lowercase (hd label mem_cons_self))
      (dot_notMem_lowercase (hd' label' mem_cons_self)) rfl rfl h
    have ih := suffixKey_inj (forall_mem_cons.mp hd).2
      (forall_mem_cons.mp hd').2 hr
    simp only [foldCase, map_cons] at ih ⊢
    rw [hl, ih]

/-- Every suffix that can be pointed at is free of dots. -/
def Layout.Dotless (t : Layout) : Prop := ∀ suffix ∈ t.recorded, Discovery.Dotless suffix

theorem Layout.skip_dotless {t : Layout} (h : t.Dotless) (n : Nat) : (t.skip n).Dotless := h

theorem Layout.push_dotless {t : Layout} (h : t.Dotless) {label : Label} {rest : List Label}
    (hl : Discovery.Dotless (label :: rest)) : (t.push label rest).Dotless := by
  intro suffix hs
  unfold push at hs
  by_cases hp : t.length ≤ maxPointerOffset
  · simp only [if_pos hp, mem_cons] at hs
    rcases hs with rfl | hs
    · exact hl
    · exact h suffix hs
  · simp only [if_neg hp] at hs
    exact h suffix hs

/-- Among names without dots a key is only ever found for its own labels. -/
theorem Layout.name_dotless : ∀ (labels : List Label) {t : Layout}, t.Dotless →
    Discovery.Dotless labels → t.agrees labels = true ∧ (t.writeName labels).Dotless
  | [], _, ht, _ => ⟨rfl, ht⟩
  | label :: rest, t, ht, hl => by
    rw [agrees, writeName]
    cases hk : t.known (label :: rest) with
    | some suffix =>
      refine ⟨?_, ht⟩
      have hkey : suffixKey suffix = suffixKey (label :: rest) := by simpa using find?_some hk
      exact beq_iff_eq.mpr (suffixKey_inj (ht suffix (mem_of_find?_eq_some hk)) hl hkey)
    | none =>
      exact name_dotless rest (push_dotless ht hl)
        (forall_mem_cons.mp hl).2

theorem agreesAll_of {α : Type} {write : Layout → α → Layout} {agrees : Layout → α → Bool}
    {P : Layout → Prop} : ∀ (xs : List α) {t : Layout}, P t →
    (∀ x ∈ xs, ∀ t, P t → agrees t x = true ∧ P (write t x)) →
    agreesAll write agrees t xs = true ∧ P (xs.foldl write t)
  | [], _, ht, _ => ⟨rfl, ht⟩
  | x :: xs, t, ht, h => by
    obtain ⟨ha, hp⟩ := h x (mem_cons_self ..) t ht
    obtain ⟨has, hps⟩ := agreesAll_of xs hp (forall_mem_cons.mp h).2
    exact ⟨by rw [agreesAll, ha, has]; rfl, hps⟩

/-- The name a payload may write as a pointer. -/
def RecordData.Dotless : RecordData → Prop
  | .ptr target => Discovery.Dotless target.labels
  | _ => True

theorem Layout.rdata_dotless (data : RecordData) {t : Layout} (ht : t.Dotless)
    (h : data.Dotless) : t.agreesRdata data = true ∧ (t.writeRdata data).Dotless := by
  cases data with
  | ptr target => exact name_dotless target.labels ht h
  | a _ | aaaa _ | srv _ _ _ _ | txt _ | other _ _ => exact ⟨rfl, ht⟩

/-- **Without dots inside labels the keys always agree.** -/
theorem Message.keysAgree_of_dotless {m : Message} (hq : ∀ q ∈ m.questions, Dotless q.name.labels)
    (hr : ∀ r ∈ m.records, Dotless r.name.labels ∧ r.data.Dotless) : m.keysAgree = true := by
  have hempty : header.Dotless := fun suffix hs => by cases hs
  obtain ⟨h₁, hp⟩ : agreesAll writeQuestion agreesQuestion .header m.questions
      = true ∧ _ := agreesAll_of m.questions hempty
        (fun q hmem _ ht => name_dotless q.name.labels ht (hq q hmem))
  have hrec : ∀ r ∈ m.records, ∀ t : Layout, t.Dotless →
      t.agreesRecord r = true ∧ (t.writeRecord r).Dotless := by
    intro r hmem t ht
    obtain ⟨hn, htn⟩ := name_dotless r.name.labels ht (hr r hmem).1
    obtain ⟨hd, htd⟩ := rdata_dotless r.data (skip_dotless htn 10) (hr r hmem).2
    refine ⟨?_, htd⟩
    rw [agreesRecord, hn]
    exact hd
  rw [Message.keysAgree, h₁, (agreesAll_of m.records hp hrec).1]
  rfl

/-! ## Faithfulness -/

/-- **A decoded message is the encoded one exactly when the suffix keys agree.** -/
theorem decode_encode_eq_iff_keysAgree {m m' : Message} {bytes : List UInt8}
    (hcanon : m.Canonical) (ho : m.OthersAreOther) (henc : m.encode = .ok bytes)
    (hdec : Message.decode bytes = .ok m') : (m' == m) = true ↔ m.keysAgree = true := by
  obtain ⟨m₁, cost, _, hread, hsame⟩ := Message.decode_encoded ho (fun _ : True => hcanon) henc
  rw [hdec] at hread
  cases hw : (DecodeWork.new bytes.length).consume cost with
  | error e => rw [hw] at hread; simp [Except.map] at hread
  | ok w =>
    rw [hw] at hread
    obtain rfl : m' = m₁ := Except.ok.inj hread
    exact hsame trivial

def askFor (name : Name) : Question := ⟨name, typeA, 1, false⟩

/-- Two labels, and one label spelled like their dotted form. -/
def twoLabels : Name := ⟨[[97], [98]], by decide⟩

def dottedLabel : Name := ⟨[[97, 46, 98]], by decide⟩

/-- The second question is written as a pointer to the first, so it reads back as another name. -/
def collision : Message := ⟨0, 0, [askFor twoLabels, askFor dottedLabel], [], [], []⟩

def collisionBytes : List UInt8 :=
  [0, 0, 0, 0, 0, 2, 0, 0, 0, 0, 0, 0, 1, 97, 1, 98, 0, 0, 1, 0, 1, 192, 12, 0, 1, 0, 1]

theorem collision_canonical : collision.Canonical where
  questionClass := by decide
  recordClass := fun r hr => by cases hr
  txt := fun r hr => by cases hr

/-- **Compression can change a name.** -/
theorem decode_encode_changes_dotted_label : collision.Canonical ∧ collision.OthersAreOther
    ∧ collision.encode = .ok collisionBytes
    ∧ ∃ m', Message.decode collisionBytes = .ok m' ∧ (m' == collision) = false := by
  have hothers : collision.OthersAreOther := fun r hr => by cases hr
  refine ⟨collision_canonical, hothers, ?_, exists_ok_of_eval ?_⟩
  · decide +kernel
  · decide +kernel

/-- The same name twice comes back as it was. -/
def repeated : Message := ⟨0, 0, [askFor twoLabels, askFor twoLabels], [], [], []⟩

theorem decode_encode_repeated : repeated.keysAgree = true ∧ repeated.encode = .ok collisionBytes
    ∧ ∃ m', Message.decode collisionBytes = .ok m'
      ∧ ((m' == repeated) = true ↔ repeated.keysAgree = true) := by
  have henc : repeated.encode = .ok collisionBytes := by decide +kernel
  obtain ⟨m', hdec, _⟩ : ∃ m', Message.decode collisionBytes = .ok m' ∧ (m' == repeated) = true :=
    exists_ok_of_eval (by decide +kernel)
  refine ⟨by decide +kernel, henc, m', hdec, decode_encode_eq_iff_keysAgree ⟨?_, ?_, ?_⟩ ?_ henc hdec⟩
  · decide
  · exact fun r hr => by cases hr
  · exact fun r hr => by cases hr
  · exact fun r hr => by cases hr

/-! ## Refusal -/

/-- **The only thing that can refuse an encoded message is the work budget**, and it does not when
the names, written out, take at most `16 / 6` of the message. -/
theorem decode_encode_refused_only_for_work {m : Message} {bytes : List UInt8}
    (ho : m.OthersAreOther) (henc : m.encode = .ok bytes) :
    ((∃ m', Message.decode bytes = .ok m')
      ∨ Message.decode bytes = .error (.decodeWorkLimit (bytes.length * 16)))
    ∧ (6 * m.nameBytes ≤ 16 * bytes.length → ∃ m', Message.decode bytes = .ok m') := by
  obtain ⟨m₁, cost, hcost, hread, _⟩ := Message.decode_encoded ho
    (fun h : False => h.elim) henc
  rw [hread]
  unfold DecodeWork.consume
  split_ifs with hfits
  · exact ⟨.inl ⟨m₁, rfl⟩, fun _ => ⟨m₁, rfl⟩⟩
  refine ⟨.inr rfl, fun hnames => absurd ?_ hfits⟩
  show cost ≤ bytes.length * 16
  omega

/-- Twenty labels of one byte. -/
def deepName : Name := ⟨List.replicate 20 [97], by decide⟩

/-- One deep name asked for eight times: seven pointers of two bytes each, every one of them
expanded in full by the decoder. -/
def deepQuestions : Message := ⟨0, 0, List.replicate 8 (askFor deepName), [], [], []⟩

/-- An address record whose payload is not four bytes long. -/
def shortAddress : Message := ⟨0, 0, [], [⟨twoLabels, 1, false, 0, .other typeA [1, 2, 3]⟩], [], []⟩

/-- **The decoder refuses what the encoder wrote**: once for the work, once for a payload that
the declared type does not allow. -/
theorem decode_encode_refuses :
    (∃ bytes, deepQuestions.encode = .ok bytes
      ∧ Message.decode bytes = .error (.decodeWorkLimit 1584))
    ∧ ∃ bytes, shortAddress.encode = .ok bytes
      ∧ Message.decode bytes = .error (.badRdata typeA) := by
  refine ⟨exists_error_of_eval ?_ ?_, exists_error_of_eval ?_ ?_⟩
  · decide +kernel
  · decide +kernel
  · decide +kernel
  · decide +kernel

/-- A message with one name stays far below the budget. -/
theorem decode_encode_repeated_accepted :
    6 * repeated.nameBytes ≤ 16 * collisionBytes.length
      ∧ ∃ m', Message.decode collisionBytes = .ok m' := by
  have hfits : 6 * repeated.nameBytes ≤ 16 * collisionBytes.length := by decide
  exact ⟨hfits, (decode_encode_refused_only_for_work (m := repeated) (fun r hr => by cases hr)
    (by decide +kernel)).2 hfits⟩

/-- **A message without dots inside its labels comes back as it was**, if its names take at most
`16 / 6` of it. -/
theorem decode_encode_dotless {m : Message} {bytes : List UInt8} (hcanon : m.Canonical)
    (ho : m.OthersAreOther) (hq : ∀ q ∈ m.questions, Dotless q.name.labels)
    (hr : ∀ r ∈ m.records, Dotless r.name.labels ∧ r.data.Dotless) (henc : m.encode = .ok bytes)
    (hnames : 6 * m.nameBytes ≤ 16 * bytes.length) :
    ∃ m', Message.decode bytes = .ok m' ∧ (m' == m) = true := by
  obtain ⟨m', cost, hcost, hread, hsame⟩ := Message.decode_encoded ho (fun _ : True => hcanon) henc
  have hfits : cost ≤ bytes.length * 16 := by omega
  refine ⟨m', ?_, (hsame trivial).mpr (Message.keysAgree_of_dotless hq hr)⟩
  rw [hread, DecodeWork.consume]
  exact congrArg _ (if_pos hfits)

theorem decode_encode_dotless_repeated :
    ∃ m', Message.decode collisionBytes = .ok m' ∧ (m' == repeated) = true := by
  have hnone {P : ResourceRecord → Prop} : ∀ r ∈ repeated.records, P r := fun r hr => by cases hr
  exact decode_encode_dotless ⟨by decide, hnone, hnone⟩ hnone (by unfold Dotless; decide) hnone
    (by decide +kernel) (by decide)

end GtaClaw.Discovery
