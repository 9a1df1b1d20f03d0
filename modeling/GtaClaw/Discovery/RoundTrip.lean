import GtaClaw.Discovery.Compression

/-!
# Encoding, then decoding, a whole message

Everything the encoder writes is described once, by `Wrote`: the bytes it
appended, what a decoder that starts there returns and at what cost, and that
the offset table is still consistent. Questions, records and whole sections are
instances, and sections compose because appending disturbs nothing.

The layout account of `Compression.lean` is carried along. Its verdict over the
whole message is `Message.keysAgree`: no suffix was pointed at under a key that
belongs to other labels.
-/

namespace GtaClaw.Discovery

open Lib ResourceRecord Message Layout List

/-! ## The layout of a message -/

variable (t : Layout)

def Layout.skip (n : Nat) : Layout := { t with length := t.length + n }

def Layout.writeQuestion (question : Question) : Layout := (t.writeName question.name.labels).skip 4

def Layout.agreesQuestion (question : Question) : Bool := t.agrees question.name.labels

/-- Only a PTR target can be pointed at or point; an SRV target is always written out. -/
def Layout.writeRdata : RecordData → Layout
  | .a _ => t.skip 4
  | .aaaa _ => t.skip 16
  | .ptr target => t.writeName target.labels
  | .srv _ _ _ target => t.skip (6 + encodedLen target.labels)
  | .txt record => t.skip record.encode.length
  | .other _ rdata => t.skip rdata.length

def Layout.agreesRdata : RecordData → Bool
  | .ptr target => t.agrees target.labels
  | _ => true

variable (record : ResourceRecord)

/-- The layout where the payload of a record begins. -/
def Layout.rdataOf : Layout := (t.writeName record.name.labels).skip 10

def Layout.writeRecord : Layout := (t.rdataOf record).writeRdata record.data

def Layout.agreesRecord : Bool :=
  t.agrees record.name.labels && (t.rdataOf record).agreesRdata record.data

/-- A verdict on each entry of a section, with the layout moving on behind it. -/
def Layout.agreesAll {α : Type} (write : Layout → α → Layout) (agrees : Layout → α → Bool) :
    Layout → List α → Bool
  | _, [] => true
  | t, entry :: rest => agrees t entry && Layout.agreesAll write agrees (write t entry) rest

/-- The header, with nothing to point at yet. -/
def Layout.header : Layout := ⟨12, []⟩

/--
No name of the message is written as a pointer to a suffix with other labels:
wherever the key of a suffix is found, it was recorded for the same labels.
-/
def Message.keysAgree (m : Message) : Bool :=
  Layout.agreesAll Layout.writeQuestion Layout.agreesQuestion Layout.header m.questions
    && Layout.agreesAll Layout.writeRecord Layout.agreesRecord
      (m.questions.foldl Layout.writeQuestion Layout.header) m.records

/-! ## Reading fixed fields -/

variable {bytes : List UInt8}

theorem readU16_of {x : UInt16} {p : Nat} {rest : List UInt8}
    (h : bytes.drop p = beU16 x ++ rest) : readU16 bytes p = .ok (x, p + 2) := by
  have h0 : bytes[p]? = some (UInt8.ofNat (x.toNat / 256)) := by
    rw [← head?_drop, h]
    rfl
  have h1 : bytes[p + 1]? = some (UInt8.ofNat (x.toNat % 256)) := by
    rw [← getElem?_drop, h]
    rfl
  unfold readU16
  rw [h0, h1]
  dsimp only
  rw [ofBeU16_beU16]

theorem readU32_of {x : UInt32} {p : Nat} {rest : List UInt8}
    (h : bytes.drop p = beU32 x ++ rest) : readU32 bytes p = .ok (x, p + 4) := by
  have hat : ∀ i, bytes[p + i]? = (beU32 x ++ rest)[i]? := fun i => by rw [← getElem?_drop, h]
  have h0 : bytes[p]? = _ := hat 0
  have h1 : bytes[p + 1]? = _ := hat 1
  have h2 : bytes[p + 2]? = _ := hat 2
  have h3 : bytes[p + 3]? = _ := hat 3
  unfold readU32
  rw [h0, h1, h2, h3]
  dsimp only [beU32]
  simp only [cons_append, nil_append, getElem?_cons_zero, getElem?_cons_succ]
  rw [ofBeU32_beU32]

/-! ## What writing an entry does -/

/--
`Wrote good decode like agree out out' offsets t least weight`: the encoder went
from `out` to `out'` by appending at least `least` bytes, the table and layout
are again in step, and a decoder that starts where the entry starts returns an
entry that is `like` the original exactly when `agree` holds.
-/
structure Wrote {α : Type} (good : Prop)
    (decode : List UInt8 → Nat → DecodeWork → Except DnsSdError (α × Nat × DecodeWork))
    (like : α → Prop) (agree : Prop) (out out' : List UInt8) (offsets : Offsets) (t : Layout)
    (least weight : Nat) : Prop where
  grows : ∃ more, out' = out ++ more ∧ least ≤ more.length
  sync : Sync (good ∧ agree) out' offsets t
  reads : ∃ (a : α) (cost : Nat), cost ≤ 6 * weight
    ∧ (∀ tail, Costs (decode (out' ++ tail)) out.length a out'.length cost)
    ∧ (good → (like a ↔ agree))

variable {good : Prop} {out : List UInt8} {offsets : Offsets} {t : Layout}

theorem Sync.weaken {good' : Prop}
    (h : Sync good out offsets t) (hg : good' → good) : Sync good' out offsets t := by
  refine ⟨h.length, ?_⟩
  have := table_append hg h.table []
  rwa [append_nil] at this

theorem Sync.skip
    (h : Sync good out offsets t) (more : List UInt8) {n : Nat} (hn : more.length = n) :
    Sync good (out ++ more) offsets (t.skip n) := by
  refine ⟨?_, table_append id h.table more⟩
  rw [Layout.skip, length_append, ← h.length, hn]

/-- Two readers, one after the other. -/
def chain {α β γ : Type} (first : Nat → DecodeWork → Except DnsSdError (α × Nat × DecodeWork))
    (second : Nat → DecodeWork → Except DnsSdError (β × Nat × DecodeWork)) (join : α → β → γ)
    (cursor : Nat) (work : DecodeWork) : Except DnsSdError (γ × Nat × DecodeWork) := do
  let (a, cursor, work) ← first cursor work
  let (b, cursor, work) ← second cursor work
  return (join a b, cursor, work)

/-- **What was written piece after piece reads back piece after piece.** The second piece relies
on the first one's names, so it is only faithful if they were. -/
theorem Wrote.chain {α β γ : Type}
    {first : List UInt8 → Nat → DecodeWork → Except DnsSdError (α × Nat × DecodeWork)}
    {second : List UInt8 → Nat → DecodeWork → Except DnsSdError (β × Nat × DecodeWork)}
    {both : List UInt8 → Nat → DecodeWork → Except DnsSdError (γ × Nat × DecodeWork)}
    {agree₁ agree₂ agree : Prop} {like₁ : α → Prop} {like₂ : β → Prop}
    {out₁ out₂ : List UInt8} {offsets₁ offsets₂ : Offsets} {t₁ t₂ : Layout}
    {least₁ least₂ least weight₁ weight₂ weight : Nat}
    (h₁ : Wrote good first like₁ agree₁ out out₁ offsets₁ t₁ least₁ weight₁)
    (h₂ : Wrote (good ∧ agree₁) second like₂ agree₂ out₁ out₂ offsets₂ t₂ least₂ weight₂)
    (join : α → β → γ) (like : γ → Prop)
    (hboth : ∀ bytes, both bytes = Discovery.chain (first bytes) (second bytes) join)
    (hlike : ∀ a b, like (join a b) ↔ like₁ a ∧ like₂ b) (hagree : agree ↔ agree₁ ∧ agree₂)
    (hleast : least ≤ least₁ + least₂) (hweight : weight₁ + weight₂ ≤ weight) :
    Wrote good both like agree out out₂ offsets₂ t₂ least weight := by
  obtain ⟨more₁, rfl, hl₁⟩ := h₁.grows
  obtain ⟨more₂, rfl, hl₂⟩ := h₂.grows
  obtain ⟨a, cost₁, hcost₁, hread₁, hsame₁⟩ := h₁.reads
  obtain ⟨b, cost₂, hcost₂, hread₂, hsame₂⟩ := h₂.reads
  refine ⟨⟨more₁ ++ more₂, append_assoc .., ?_⟩, ?_, join a b, cost₁ + cost₂, ?_, ?_, ?_⟩
  · rw [length_append]; omega
  · exact h₂.sync.weaken (fun hg => ⟨⟨hg.1, (hagree.mp hg.2).1⟩, (hagree.mp hg.2).2⟩)
  · omega
  · intro tail work
    have hr₁ := hread₁ (more₂ ++ tail) work
    rw [← append_assoc] at hr₁
    rw [hboth, Discovery.chain, hr₁, consume_add]
    cases work.consume cost₁ with
    | error e => rfl
    | ok w =>
      simp only [Except.map, bind, Except.bind]
      rw [hread₂ tail w]
      cases w.consume cost₂ with
      | error e | ok w' => rfl
  · intro hg
    rw [hlike, hagree, hsame₁ hg]
    refine and_congr_right (fun h => hsame₂ ⟨hg, h⟩)

variable {out' : List UInt8} {offsets' : Offsets}

theorem wrote_question (q : Question) (hc : good → q.queryClass &&& 0x8000 = 0)
    (hs : Sync good out offsets t) (h : encodeQuestion out q offsets = .ok (out', offsets')) :
    Wrote good decodeQuestion (fun q' => (q' == q) = true) (t.agreesQuestion q = true) out out'
      offsets' (t.writeQuestion q) 5 (encodedLen q.name.labels) := by
  obtain ⟨more, entries, suffixes, reads, hops, hw⟩ := encodeName_writes hs q.name
  obtain ⟨n', cost, hcost, hread, hsame⟩ := hw.reads_back
  obtain ⟨c, hcdef⟩ : ∃ c, c = withFlag q.queryClass q.unicastResponse := ⟨_, rfl⟩
  unfold encodeQuestion at h
  rw [hw.encode] at h
  rw [← hcdef] at h
  obtain ⟨rfl, rfl⟩ := Prod.mk.inj (Except.ok.inj h)
  have hpos := hw.pos
  refine ⟨⟨more ++ beU16 q.queryType ++ beU16 c, by simp, by simp; omega⟩, ?_, ?_⟩
  · have := (hw.sync hs).skip (beU16 q.queryType ++ beU16 c) (n := 4) rfl
    rw [← append_assoc] at this
    exact this
  · refine ⟨⟨n', q.queryType, c &&& ~~~0x8000, c &&& 0x8000 != 0⟩, cost, hcost, ?_, ?_⟩
    · intro tail work
      have hname := hread (beU16 q.queryType ++ beU16 c ++ tail) work
      have hbytes : out ++ more ++ (beU16 q.queryType ++ beU16 c ++ tail)
          = out ++ more ++ beU16 q.queryType ++ beU16 c ++ tail := by simp
      rw [hbytes] at hname
      have hdrop := @drop_length_add_append _ (out ++ more) (beU16 q.queryType ++ beU16 c ++ tail)
      rw [length_append, hbytes] at hdrop
      have h1 := readU16_of (hdrop 0)
      rw [Nat.add_zero] at h1
      have h2 := readU16_of (x := c) (hdrop 2)
      unfold decodeQuestion
      rw [hname]
      cases work.consume cost with
      | error e => rfl
      | ok w =>
        simp only [Except.map, bind, Except.bind, h1, h2]
        simp only [pure, Except.pure, length_append, beU16_length]
    · intro hgood
      show Question.eq _ q = true ↔ _
      simp only [Question.eq, hcdef, withFlag_field (hc hgood), withFlag_flag (hc hgood), BEq.rfl,
        Bool.and_true]
      exact hsame hgood

/-! ## Record payloads -/

/-- An uninterpreted payload does not carry one of the five modelled type numbers. -/
def RecordData.OtherIsOther : RecordData → Prop
  | .other recordType _ => recordType ≠ typeA ∧ recordType ≠ typeAaaa ∧ recordType ≠ typePtr
      ∧ recordType ≠ typeSrv ∧ recordType ≠ typeTxt
  | _ => True

/-- A TXT payload is not the single empty string, which reads back as no string at all. -/
def RecordData.TxtIsCanonical : RecordData → Prop
  | .txt record => record.strings ≠ [[]]
  | _ => True

/-- The uncompressed bytes of the names in a payload. -/
def RecordData.nameBytes : RecordData → Nat
  | .ptr target => encodedLen target.labels
  | .srv _ _ _ target => encodedLen target.labels
  | _ => 0

/-- What writing a payload does; `rdata` is what was appended. -/
structure WroteRdata (good : Prop) (data : RecordData) (out : List UInt8) (offsets : Offsets)
    (t : Layout) (rdata : List UInt8) (offsets' : Offsets) : Prop where
  encode : encodeRdata out data offsets = (out ++ rdata, offsets')
  sync : Sync (good ∧ t.agreesRdata data = true) (out ++ rdata) offsets' (t.writeRdata data)
  reads : ∃ (data' : RecordData) (cost : Nat), cost ≤ 6 * data.nameBytes
    ∧ (∀ tail work, decodeRdata (out ++ rdata ++ tail) data.recordType rdata out.length work
        = (work.consume cost).map (fun work => (data', work)))
    ∧ (good → ((data' == data) = true ↔ t.agreesRdata data = true))

theorem Name.beq_self (n : Name) : (n == n) = true := (Name.beq_iff n n).mpr rfl

theorem RecordData.beq_self (data : RecordData) : (data == data) = true := by
  show RecordData.eq data data = true
  cases data <;> simp [RecordData.eq, Name.beq_self]

theorem TxtRecord.decode_encode_ok (record : TxtRecord) :
    ∃ record', TxtRecord.decode record.encode = .ok record'
      ∧ (record.strings ≠ [[]] → record' = record) := by
  by_cases h : record.strings = [[]]
  · obtain ⟨strings, hb⟩ := record
    subst h
    exact ⟨⟨[], by simp⟩, rfl, fun hne => absurd rfl hne⟩
  · exact ⟨record, TxtRecord.decode_encode record h, fun _ => rfl⟩

/-- A payload without compressed names: nothing is charged and the bytes decide. -/
theorem wroteRdata_plain (data' : RecordData) {data : RecordData}
    {rdata : List UInt8} (hs : Sync good out offsets t)
    (henc : encodeRdata out data offsets = (out ++ rdata, offsets))
    (hlay : t.writeRdata data = t.skip rdata.length) (hagree : t.agreesRdata data = true)
    (hdec : ∀ message start work, decodeRdata message data.recordType rdata start work
      = .ok (data', work))
    (hlike : good → data' = data) : WroteRdata good data out offsets t rdata offsets := by
  refine ⟨henc, ?_, data', 0, Nat.zero_le _, ?_, ?_⟩
  · rw [hlay]
    exact (hs.skip rdata rfl).weaken And.left
  · intro tail work
    rw [hdec]
    rfl
  · intro hgood
    rw [hlike hgood, hagree]
    simp [RecordData.beq_self data]

theorem decodeTarget_costs (recordType : UInt16) {message : List UInt8} {start stop cost : Nat}
    {n : Name} (h : Costs (decodeName message) start n stop cost) (work : DecodeWork) :
    decodeTarget message recordType start stop work
      = (work.consume cost).map (fun work => (n, work)) := by
  unfold decodeTarget
  rw [h work]
  cases work.consume cost with
  | error e => rfl
  | ok w => simp [Except.map, bind, Except.bind]

theorem wroteRdata_srv
    (hs : Sync good out offsets t) (priority weight port : UInt16) (target : Name) :
    ∃ rdata, WroteRdata good (.srv priority weight port target) out offsets t rdata offsets := by
  -- the target is written against an empty table, so it cannot point anywhere
  obtain ⟨front, hfront⟩ : ∃ front, front = beU16 priority ++ beU16 weight ++ beU16 port := ⟨_, rfl⟩
  have hlen6 : front.length = 6 := by rw [hfront]; rfl
  have hs0 : Sync good (out ++ front) [] ⟨(out ++ front).length, []⟩ := ⟨rfl, .nil⟩
  obtain ⟨more, entries, suffixes, reads, hops, hw⟩ := encodeName_writes hs0 target
  obtain ⟨n', cost, hcost, hread, hsame⟩ := hw.reads_back
  obtain ⟨hagree, hlayout⟩ :=
    fresh_layout target.labels ⟨(out ++ front).length, []⟩ (fun _ h => absurd h (by simp))
  have hmore : more.length = encodedLen target.labels := by
    rw [hw.layout] at hlayout
    dsimp only at hlayout
    omega
  have hpos := hw.pos
  refine ⟨front ++ more, ?_, ?_, .srv priority weight port n', cost, hcost, ?_, ?_⟩
  · show ((encodeName (out ++ beU16 priority ++ beU16 weight ++ beU16 port) target.labels []).1,
      offsets) = _
    have hb : out ++ beU16 priority ++ beU16 weight ++ beU16 port = out ++ front := by
      rw [hfront]; simp
    rw [hb, hw.encode, append_assoc]
  · exact (hs.skip (front ++ more) (n := 6 + encodedLen target.labels) (by simp; omega)).weaken And.left
  · intro tail work
    have hb : out ++ (front ++ more) ++ tail = out ++ front ++ more ++ tail := by simp
    have ht := decodeTarget_costs typeSrv (hread tail) work
    have h0 : readU16 (front ++ more) 0 = .ok (priority, _) := readU16_of (by rw [hfront]; rfl)
    have h2 : readU16 (front ++ more) 2 = .ok (weight, _) := readU16_of (by rw [hfront]; rfl)
    have h4 : readU16 (front ++ more) 4 = .ok (port, _) := readU16_of (by rw [hfront]; rfl)
    show decodeRdata _ typeSrv _ _ _ = _
    unfold decodeRdata
    rw [if_neg (by decide), if_neg (by decide), if_neg (by decide), if_pos rfl,
      if_neg (by simp; omega)]
    have hstart : out.length + 6 = (out ++ front).length := by simp [hlen6]
    have hstop : out.length + (front ++ more).length = (out ++ front).length + more.length := by
      simp; omega
    simp only [h0, h2, h4]
    rw [hstart, hstop, hb, ht]
    cases work.consume cost <;> rfl
  · intro hgood
    have hag := (hsame hgood).mpr hagree
    show RecordData.eq _ _ = true ↔ (true = true)
    simp [RecordData.eq, hag]

/-- **Writing any payload.** -/
theorem wroteRdata (hs : Sync good out offsets t) (data : RecordData) (ho : data.OtherIsOther)
    (htxt : good → data.TxtIsCanonical) :
    ∃ rdata offsets', WroteRdata good data out offsets t rdata offsets' := by
  cases data with
  | a address | aaaa address =>
    refine ⟨address.bytes, offsets, wroteRdata_plain _ hs rfl ?_ rfl ?_ (fun _ => rfl)⟩
    · exact congrArg t.skip address.length_eq.symm
    · intro message start work
      simp only [RecordData.recordType, decodeRdata, octetsFrom, dif_pos address.length_eq]
      rfl
  | ptr target =>
    obtain ⟨more, entries, suffixes, reads, hops, hw⟩ := encodeName_writes hs target
    obtain ⟨n', cost, hcost, hread, hsame⟩ := hw.reads_back
    refine ⟨more, entries ++ offsets, hw.encode, hw.sync hs, .ptr n', cost, hcost, ?_, hsame⟩
    intro tail work
    have ht := decodeTarget_costs typePtr (hread tail) work
    unfold decodeRdata
    rw [ht]
    cases work.consume cost <;> rfl
  | srv priority weight port target =>
    obtain ⟨rdata, h⟩ := wroteRdata_srv hs priority weight port target
    exact ⟨rdata, offsets, h⟩
  | txt record =>
    obtain ⟨record', hdec, hcanon⟩ := TxtRecord.decode_encode_ok record
    refine ⟨record.encode, offsets, wroteRdata_plain (.txt record') hs rfl rfl rfl ?_
      (fun hgood => by rw [hcanon (htxt hgood)])⟩
    intro message start work
    show decodeRdata _ typeTxt _ _ _ = _
    unfold decodeRdata
    rw [if_neg (by decide), if_neg (by decide), if_neg (by decide), if_neg (by decide),
      if_pos rfl, hdec]
    rfl
  | other recordType rdata =>
    obtain ⟨h1, h2, h3, h4, h5⟩ := ho
    refine ⟨rdata, offsets, wroteRdata_plain (.other recordType rdata) hs rfl rfl rfl ?_
      (fun _ => rfl)⟩
    intro message start work
    show decodeRdata _ recordType _ _ _ = _
    unfold decodeRdata
    rw [if_neg h1, if_neg h2, if_neg h3, if_neg h4, if_neg h5]

/-! ## Records and sections -/

theorem encodeRdata_congr (data : RecordData) (n : Nat) (offsets : Offsets) :
    ∃ rdata offsets', ∀ out : List UInt8, out.length = n →
      encodeRdata out data offsets = (out ++ rdata, offsets') := by
  cases data with
  | a address | aaaa address => exact ⟨address.bytes, offsets, fun _ _ => rfl⟩
  | ptr target => exact encodeName_congr target.labels n offsets
  | srv priority weight port target =>
    obtain ⟨more, offsets', h⟩ := encodeName_congr target.labels (n + 6) []
    refine ⟨beU16 priority ++ beU16 weight ++ beU16 port ++ more, offsets, ?_⟩
    intro out hn
    simp only [encodeRdata, h (out ++ beU16 priority ++ beU16 weight ++ beU16 port) (by simp [hn])]
    simp
  | txt record => exact ⟨record.encode, offsets, fun _ _ => rfl⟩
  | other recordType rdata => exact ⟨rdata, offsets, fun _ _ => rfl⟩

/-- Filling the length field in afterwards is the same as having known it. -/
theorem patchU16_placeholder (pre rdata : List UInt8) (value : UInt16) :
    patchU16 (pre ++ [0, 0] ++ rdata) pre.length value = pre ++ beU16 value ++ rdata := by
  unfold patchU16
  have h2 : pre.length + 2 = (pre ++ [(0 : UInt8), 0]).length := by simp
  rw [h2, drop_left, append_assoc pre [0, 0] rdata, take_left]

/-- The uncompressed bytes of the names in a record. -/
def ResourceRecord.nameBytes : Nat := encodedLen record.name.labels + record.data.nameBytes

/-- What a record that encodes looks like: its name, the fixed fields, the payload's length and
the payload, written as if the length had been known in advance. -/
theorem encodeRecord_writes {more : List UInt8} {offsets₁ : Offsets}
    {r : ResourceRecord} (hn : encodeName out r.name.labels offsets = (out ++ more, offsets₁))
    (h : encodeRecord out r offsets = .ok (out', offsets')) :
    ∃ v rdata fixed, v.toNat = rdata.length
      ∧ fixed = beU16 r.data.recordType ++ beU16 (withFlag r.cls r.cacheFlush) ++ beU32 r.ttl
          ++ beU16 v
      ∧ out' = out ++ more ++ fixed ++ rdata
      ∧ encodeRdata (out ++ more ++ fixed) r.data offsets₁ = (out', offsets') := by
  obtain ⟨pre, hpre⟩ : ∃ pre, pre = out ++ more ++ beU16 r.data.recordType
      ++ beU16 (withFlag r.cls r.cacheFlush) ++ beU32 r.ttl := ⟨_, rfl⟩
  unfold encodeRecord at h
  rw [hn] at h
  dsimp only at h
  rw [← hpre] at h
  -- the payload does not depend on what the length field holds
  obtain ⟨rdata, offsets₂, hr⟩ := encodeRdata_congr r.data (pre.length + 2) offsets₁
  rw [hr (pre ++ [0, 0]) (by simp)] at h
  have hlen : (pre ++ [0, 0] ++ rdata).length - pre.length - 2 = rdata.length := by simp
  rw [hlen] at h
  cases hv : u16TryFrom rdata.length with
  | none => rw [hv] at h; simp at h
  | some v =>
    rw [hv] at h
    dsimp only at h
    rw [patchU16_placeholder] at h
    obtain ⟨rfl, rfl⟩ := Prod.mk.inj (Except.ok.inj h)
    have hfixed : out ++ more ++ (beU16 r.data.recordType
        ++ beU16 (withFlag r.cls r.cacheFlush) ++ beU32 r.ttl ++ beU16 v) = pre ++ beU16 v := by
      rw [hpre]; simp
    refine ⟨v, rdata, _, (u16TryFrom_eq_some hv).2, rfl, ?_, ?_⟩
    · rw [hfixed]
    · rw [hfixed, hr _ (by simp)]

theorem decodeRecord_reads (before : List UInt8) {fixed rdata tail : List UInt8} {start cost cost' : Nat}
    {name : Name} {recordType c v : UInt16} {ttl : UInt32} {data : RecordData}
    (hbytes : bytes = before ++ fixed ++ rdata ++ tail)
    (hfixed : fixed = beU16 recordType ++ beU16 c ++ beU32 ttl ++ beU16 v)
    (hv : v.toNat = rdata.length) (hname : Costs (decodeName bytes) start name before.length cost)
    (hdata : ∀ work, decodeRdata bytes recordType rdata (before ++ fixed).length work
      = (work.consume cost').map (fun work => (data, work))) :
    Costs (decodeRecord bytes) start ⟨name, c &&& ~~~0x8000, c &&& 0x8000 != 0, ttl, data⟩
      (before ++ fixed ++ rdata).length (cost + cost') := by
  intro work
  have hdrop : ∀ i, bytes.drop (before.length + i) = (fixed ++ (rdata ++ tail)).drop i := by
    intro i
    rw [hbytes, append_assoc, append_assoc, drop_length_add_append]
  rw [hfixed] at hdrop
  have h1 : readU16 bytes before.length = .ok (recordType, _) := readU16_of (hdrop 0)
  have h2 : readU16 bytes (before.length + 2) = .ok (c, _) := readU16_of (hdrop 2)
  have h3 : readU32 bytes (before.length + 2 + 2) = .ok (ttl, _) := readU32_of (hdrop 4)
  have h4 : readU16 bytes (before.length + 2 + 2 + 4) = .ok (v, _) := readU16_of (hdrop 8)
  have hstart : before.length + 2 + 2 + 4 + 2 = (before ++ fixed).length := by rw [hfixed]; simp
  have hend : (before ++ fixed).length + rdata.length = (before ++ fixed ++ rdata).length :=
    length_append.symm
  have hslice : slice bytes (before ++ fixed).length (before ++ fixed ++ rdata).length = rdata := by
    rw [hbytes, ← hend]; exact slice_append _ _ _
  have hfits : ¬ (before ++ fixed ++ rdata).length > bytes.length := by rw [hbytes]; simp
  unfold decodeRecord
  rw [hname, consume_add]
  cases work.consume cost with
  | error e => rfl
  | ok w =>
    simp only [Except.map, bind, Except.bind, h1, h2, h3, h4]
    rw [hstart, hv, hend, hslice, if_neg hfits, hdata]
    cases w.consume cost' with
    | error e | ok w' => rfl

theorem wrote_record (r : ResourceRecord) (ho : r.data.OtherIsOther)
    (hc : good → r.cls &&& 0x8000 = 0 ∧ r.data.TxtIsCanonical) (hs : Sync good out offsets t)
    (h : encodeRecord out r offsets = .ok (out', offsets')) :
    Wrote good decodeRecord (fun r' => (r' == r) = true) (t.agreesRecord r = true) out out'
      offsets' (t.writeRecord r) 11 r.nameBytes := by
  obtain ⟨more, entries, suffixes, reads, hops, hw⟩ := encodeName_writes hs r.name
  obtain ⟨n', cost, hcost, hread, hsame⟩ := hw.reads_back
  obtain ⟨v, rdata, fixed, hv, hfixed, hout, hr⟩ := encodeRecord_writes hw.encode h
  have hlen : fixed.length = 10 := by rw [hfixed]; rfl
  obtain ⟨rdata', offsets₂, hwr⟩ := wroteRdata ((hw.sync hs).skip fixed hlen) r.data ho
    (fun hg => (hc hg.1).2)
  obtain ⟨hcat, rfl⟩ := Prod.mk.inj (hr.symm.trans hwr.encode)
  obtain rfl := append_cancel_left (hout.symm.trans hcat)
  obtain ⟨data', cost', hcost', hread', hsame'⟩ := hwr.reads
  have hagree : t.agreesRecord r = true
      ↔ t.agrees r.name.labels = true ∧ (t.rdataOf r).agreesRdata r.data = true := by
    rw [agreesRecord, Bool.and_eq_true]
  have hpos := hw.pos
  refine ⟨⟨more ++ fixed ++ rdata, by rw [hout]; simp, by simp; omega⟩, ?_,
    ⟨n', withFlag r.cls r.cacheFlush &&& ~~~0x8000, withFlag r.cls r.cacheFlush &&& 0x8000 != 0,
      r.ttl, data'⟩, cost + cost', ?_, ?_, ?_⟩
  · rw [hout]
    exact hwr.sync.weaken (fun hg => ⟨⟨hg.1, (hagree.mp hg.2).1⟩, (hagree.mp hg.2).2⟩)
  · unfold nameBytes; omega
  · intro tail
    rw [hout]
    refine decodeRecord_reads (out ++ more) rfl hfixed hv ?_ (hread' tail)
    have := hread (fixed ++ rdata ++ tail)
    rwa [← append_assoc, ← append_assoc, ← length_append] at this
  · intro hg
    rw [hagree, ← hsame hg]
    show ResourceRecord.eq _ r = true ↔ _
    simp only [ResourceRecord.eq, withFlag_field (hc hg).1, withFlag_flag (hc hg).1, BEq.rfl,
      Bool.and_true, Bool.and_eq_true]
    exact and_congr_right fun hn => hsame' ⟨hg, (hsame hg).mp hn⟩

/-! ## The sections -/

section Each

variable {α : Type}
  {encode : List UInt8 → α → Offsets → Except DnsSdError (List UInt8 × Offsets)}
  {decode : List UInt8 → Nat → DecodeWork → Except DnsSdError (α × Nat × DecodeWork)}
  {write : Layout → α → Layout} {agrees : Layout → α → Bool} {canon ok : α → Prop}
  {least : Nat} {weight : α → Nat}

theorem encodeEach_cons {x : α} {xs : List α}
    (h : encodeEach encode out (x :: xs) offsets = .ok (out', offsets')) :
    ∃ out₁ offsets₁, encode out x offsets = .ok (out₁, offsets₁) ∧ out₁.length ≤ maxMessageBytes
      ∧ encodeEach encode out₁ xs offsets₁ = .ok (out', offsets') := by
  obtain ⟨⟨out₁, offsets₁⟩, hx, h⟩ := bind_ok h
  obtain ⟨_, hsize, h⟩ := bind_ok h
  refine ⟨out₁, offsets₁, hx, ?_, h⟩
  by_contra hlarge
  rw [ensureMessageSize, if_pos (by omega)] at hsize
  cases hsize

theorem encodeEach_size : ∀ (xs : List α) {out out' : List UInt8} {offsets offsets' : Offsets},
    out.length ≤ maxMessageBytes → encodeEach encode out xs offsets = .ok (out', offsets') →
    out'.length ≤ maxMessageBytes
  | [], _, _, _, _, hlen, h => by
    obtain ⟨rfl, rfl⟩ := Prod.mk.inj (Except.ok.inj h)
    exact hlen
  | _ :: xs, _, _, _, _, _, h => by
    obtain ⟨_, _, _, hsize, hrest⟩ := encodeEach_cons h
    exact encodeEach_size xs hsize hrest

theorem encodeEach_append : ∀ xs ys out offsets,
    encodeEach encode out (xs ++ ys) offsets
      = encodeEach encode out xs offsets >>= fun r => encodeEach encode r.1 ys r.2
  | [], _, _, _ => rfl
  | x :: xs, ys, out, offsets => by
    simp only [cons_append, encodeEach, bind_assoc, encodeEach_append xs ys]

theorem agreesAll_append : ∀ xs ys t,
    agreesAll write agrees t (xs ++ ys)
      = (agreesAll write agrees t xs
          && agreesAll write agrees (xs.foldl write t) ys)
  | [], _, _ => by simp [agreesAll]
  | x :: xs, ys, t => by
    simp only [cons_append, agreesAll, foldl_cons,
      agreesAll_append xs ys (write t x), Bool.and_assoc]

/-- **A section reads back entry by entry** when each entry does. -/
theorem wrote_each [BEq α]
    (hone : ∀ (good : Prop) (out : List UInt8) (offsets : Offsets) (t : Layout)
      (out' : List UInt8) (offsets' : Offsets) (x : α), ok x → (good → canon x) → Sync good out offsets t →
      encode out x offsets = .ok (out', offsets') →
      Wrote good decode (fun y => (y == x) = true) (agrees t x = true) out out' offsets'
        (write t x) least (weight x)) :
    ∀ (xs : List α) {good : Prop} {out out' : List UInt8} {offsets offsets' : Offsets}
      {t : Layout}, (∀ x ∈ xs, ok x) → (good → ∀ x ∈ xs, canon x) → Sync good out offsets t →
      encodeEach encode out xs offsets = .ok (out', offsets') →
      Wrote good (fun bytes => decodeMany (decode bytes) xs.length) (fun ys => (ys == xs) = true)
        (agreesAll write agrees t xs = true) out out' offsets' (xs.foldl write t)
        (least * xs.length) (xs.map weight).sum
  | [], good, out, out', offsets, offsets', t, _, _, hs, h => by
    obtain ⟨rfl, rfl⟩ := Prod.mk.inj (Except.ok.inj h)
    refine ⟨⟨[], by simp, by simp⟩, ⟨hs.length, ?_⟩, [], 0, by simp, ?_, ?_⟩
    · exact (hs.weaken And.left).table
    · intro tail work
      rfl
    · intro _
      simp [agreesAll]
  | x :: xs, good, out, out', offsets, offsets', t, hok, hcanon, hs, h => by
    obtain ⟨out₁, offsets₁, hx, _, hrest⟩ := encodeEach_cons h
    have hw := hone good out offsets t out₁ offsets₁ x (hok x (mem_cons_self ..))
      (fun hg => hcanon hg x (mem_cons_self ..)) hs hx
    have hws := wrote_each hone xs (forall_mem_cons.mp hok).2
      (fun hg y hy => hcanon hg.1 y (mem_cons_of_mem _ hy)) hw.sync hrest
    refine hw.chain hws cons _ (fun _ => rfl) (fun y ys => ?_) ?_ ?_ (le_of_eq ?_)
    · rw [cons_beq_cons, Bool.and_eq_true]
    · rw [agreesAll, Bool.and_eq_true]
    · rw [length_cons, Nat.mul_succ]; omega
    · rw [map_cons, sum_cons]

end Each

/-! ## The message -/

/-- The messages the wire format can represent: the classes leave the flag bit free and no TXT
payload is the single empty string. -/
structure Message.Canonical (m : Message) : Prop where
  questionClass : ∀ q ∈ m.questions, q.queryClass &&& 0x8000 = 0
  recordClass : ∀ r ∈ m.records, r.cls &&& 0x8000 = 0
  txt : ∀ r ∈ m.records, r.data.TxtIsCanonical

/-- `RecordData::Other` never carries a type number that has a form of its own. -/
def Message.OthersAreOther (m : Message) : Prop := ∀ r ∈ m.records, r.data.OtherIsOther

/-- The bytes all names of the message would take without compression. -/
def Message.nameBytes (m : Message) : Nat :=
  (m.questions.map (fun q => encodedLen q.name.labels)).sum
    + (m.records.map ResourceRecord.nameBytes).sum

theorem sectionCount_ok {value : Nat} {count : UInt16} (h : sectionCount value = .ok count) :
    count.toNat = value := by
  unfold sectionCount at h
  split at h
  · cases h
    exact (u16TryFrom_eq_some ‹_›).2
  · cases h

/-- A header: identifier, flags and the four section counts. -/
def headerBytes (id flags questions answers authorities additionals : UInt16) : List UInt8 :=
  beU16 id ++ beU16 flags ++ beU16 questions ++ beU16 answers ++ beU16 authorities
    ++ beU16 additionals

/-- The four section loops of the decoder. -/
def decodeSections (questions answers authorities additionals : Nat) (bytes : List UInt8) :
    Nat → DecodeWork → Except DnsSdError ((((List Question × List ResourceRecord)
      × List ResourceRecord) × List ResourceRecord) × Nat × DecodeWork) :=
  chain (chain (chain (decodeMany (decodeQuestion bytes) questions)
    (decodeMany (decodeRecord bytes) answers) Prod.mk)
    (decodeMany (decodeRecord bytes) authorities) Prod.mk)
    (decodeMany (decodeRecord bytes) additionals) Prod.mk

/-- Behind a header whose counts are plausible, decoding is the four loops and the check that
nothing is left over. -/
theorem Message.decode_header {body : List UInt8} {id flags q a u d : UInt16}
    (hbytes : bytes = headerBytes id flags q a u d ++ body) (hsize : bytes.length ≤ maxMessageBytes)
    (hcounts : 5 * q.toNat + 11 * (a.toNat + u.toNat + d.toNat) ≤ body.length) :
    decode bytes
      = (decodeSections q.toNat a.toNat u.toNat d.toNat bytes 12 (DecodeWork.new bytes.length)
        >>= fun r => if r.2.1 ≠ bytes.length then .error .trailingBytes
          else .ok ⟨id, flags, r.1.1.1.1, r.1.1.1.2, r.1.1.2, r.1.2⟩) := by
  have hlen : bytes.length = 12 + body.length := by rw [hbytes]; simp [headerBytes]; omega
  have h0 : readU16 bytes 0 = .ok (id, 2) := readU16_of (by rw [hbytes]; rfl)
  have h2 : readU16 bytes 2 = .ok (flags, 4) := readU16_of (by rw [hbytes]; rfl)
  have h4 : readU16 bytes 4 = .ok (q, 6) := readU16_of (by rw [hbytes]; rfl)
  have h6 : readU16 bytes 6 = .ok (a, 8) := readU16_of (by rw [hbytes]; rfl)
  have h8 : readU16 bytes 8 = .ok (u, 10) := readU16_of (by rw [hbytes]; rfl)
  have h10 : readU16 bytes 10 = .ok (d, 12) := readU16_of (by rw [hbytes]; rfl)
  have hsz : ensureMessageSize bytes.length = .ok () := by
    unfold ensureMessageSize
    rw [if_neg (by omega)]
  have hdecl : validateDeclaredCounts q.toNat a.toNat u.toNat d.toNat (bytes.length - 12)
      = .ok () := by
    unfold validateDeclaredCounts
    rw [if_neg (by unfold minQuestionWireBytes minRecordWireBytes; omega)]
  have hok : ∀ {α β : Type} (x : α) (f : α → Except DnsSdError β), (.ok x >>= f) = f x :=
    fun _ _ => rfl
  unfold decode
  simp only [hsz, h0, h2, h4, h6, h8, h10, hdecl, hok]
  rw [if_neg (by omega)]
  simp only [decodeSections, chain, decodeRecords, bind_assoc, pure_bind]
  rfl

/-- **A message that encodes is written section by section**, and its four loops read it back. -/
theorem Message.wrote_sections {m : Message}
    (ho : m.OthersAreOther) (hcanon : good → m.Canonical) (h : m.encode = .ok bytes) :
    ∃ q a u d offsets t, bytes.length ≤ maxMessageBytes ∧
      Wrote good (decodeSections q.toNat a.toNat u.toNat d.toNat)
        (fun r => (((r.1.1.1 == m.questions) = true ∧ (r.1.1.2 == m.answers) = true)
          ∧ (r.1.2 == m.authorities) = true) ∧ (r.2 == m.additionals) = true)
        (m.keysAgree = true) (headerBytes m.id m.flags q a u d) bytes offsets t
        (5 * q.toNat + 11 * (a.toNat + u.toNat + d.toNat)) m.nameBytes := by
  -- the header, then the four sections
  obtain ⟨q, hq, h⟩ := bind_ok h
  obtain ⟨a, ha, h⟩ := bind_ok h
  obtain ⟨u, hu, h⟩ := bind_ok h
  obtain ⟨d, hd, h⟩ := bind_ok h
  obtain ⟨⟨out₁, offsets₁⟩, h₁, h⟩ := bind_ok h
  obtain ⟨⟨out₄, offsets₄⟩, h₄, h⟩ := bind_ok h
  obtain rfl : out₄ = bytes := Except.ok.inj h
  rw [records, encodeEach_append, encodeEach_append] at h₄
  obtain ⟨⟨out₃, offsets₃⟩, h₃, h₄⟩ := bind_ok h₄
  obtain ⟨⟨out₂, offsets₂⟩, h₂, h₃⟩ := bind_ok h₃
  apply sectionCount_ok at hq
  apply sectionCount_ok at ha
  apply sectionCount_ok at hu
  apply sectionCount_ok at hd
  have hmem : ∀ r, r ∈ m.records ↔ (r ∈ m.answers ∨ r ∈ m.authorities) ∨ r ∈ m.additionals := by
    intro r; rw [Message.records, mem_append, mem_append]
  have hc : good → ∀ r ∈ m.records, r.cls &&& 0x8000 = 0 ∧ r.data.TxtIsCanonical :=
    fun hg r hr => ⟨(hcanon hg).recordClass r hr, (hcanon hg).txt r hr⟩
  -- each section relies on the names of those before it
  have w₁ := wrote_each (fun _ _ _ _ _ _ q _ => wrote_question q) m.questions
    (fun _ _ => trivial) (fun hg => (hcanon hg).questionClass) (⟨rfl, .nil⟩ : Sync good _ _ header) h₁
  have w₂ := wrote_each @wrote_record m.answers (fun r hr => ho r ((hmem r).mpr (.inl (.inl hr))))
    (fun hg r hr => hc hg.1 r ((hmem r).mpr (.inl (.inl hr)))) w₁.sync h₂
  have w₁₂ := w₁.chain w₂ Prod.mk
    (fun r => (r.1 == m.questions) = true ∧ (r.2 == m.answers) = true) (fun _ => rfl) (fun _ _ => Iff.rfl)
      Iff.rfl le_rfl le_rfl
  have w₃ := wrote_each @wrote_record m.authorities (fun r hr => ho r ((hmem r).mpr (.inl (.inr hr))))
    (fun hg r hr => hc hg.1 r ((hmem r).mpr (.inl (.inr hr)))) w₁₂.sync h₃
  have w₁₂₃ := w₁₂.chain w₃ Prod.mk
    (fun r => ((r.1.1 == m.questions) = true ∧ (r.1.2 == m.answers) = true)
      ∧ (r.2 == m.authorities) = true) (fun _ => rfl) (fun _ _ => Iff.rfl) Iff.rfl le_rfl le_rfl
  have w₄ := wrote_each @wrote_record m.additionals (fun r hr => ho r ((hmem r).mpr (.inr hr)))
    (fun hg r hr => hc hg.1 r ((hmem r).mpr (.inr hr))) w₁₂₃.sync h₄
  have hhdr : (headerBytes m.id m.flags q a u d).length ≤ maxMessageBytes := by
    show 12 ≤ maxMessageBytes
    decide
  have hsize := encodeEach_size _ (encodeEach_size _ (encodeEach_size _
    (encodeEach_size _ hhdr h₁) h₂) h₃) h₄
  refine ⟨q, a, u, d, offsets₄, _, hsize, w₁₂₃.chain w₄ Prod.mk _ ?_ (fun _ _ => Iff.rfl)
    ?_ ?_ (le_of_eq ?_)⟩
  · rw [hq, ha, hu, hd]; exact fun _ => rfl
  · rw [keysAgree, records, agreesAll_append, agreesAll_append, foldl_append]
    simp only [Bool.and_eq_true, and_assoc]
  · omega
  · rw [Message.nameBytes, Message.records]
    simp only [map_append, sum_append]
    omega

/-- **Decoding what was encoded.** It returns a message unless the names cost more work than the
message length grants, and that message is the original exactly when the suffix keys agree. -/
theorem Message.decode_encoded {m : Message}
    (ho : m.OthersAreOther) (hcanon : good → m.Canonical) (h : m.encode = .ok bytes) :
    ∃ m' cost, cost ≤ 6 * m.nameBytes
      ∧ decode bytes = ((DecodeWork.new bytes.length).consume cost).map (fun _ => m')
      ∧ (good → ((m' == m) = true ↔ m.keysAgree = true)) := by
  obtain ⟨q, a, u, d, offsets, t, hsize, w⟩ := wrote_sections ho hcanon h
  obtain ⟨body, hbody, hleast⟩ := w.grows
  obtain ⟨r, cost, hcost, hread, hsame⟩ := w.reads
  refine ⟨⟨m.id, m.flags, r.1.1.1, r.1.1.2, r.1.2, r.2⟩, cost, hcost, ?_, ?_⟩
  · have hr := hread [] (DecodeWork.new bytes.length)
    rw [append_nil] at hr
    rw [decode_header hbody hsize hleast]
    rw [show (12 : Nat) = (headerBytes m.id m.flags q a u d).length from rfl, hr]
    cases (DecodeWork.new bytes.length).consume cost with
    | error e => rfl
    | ok w' => simp [Except.map, bind, Except.bind]
  · intro hg
    rw [← hsame hg]
    show eq _ m = true ↔ _
    simp [eq]

end GtaClaw.Discovery
