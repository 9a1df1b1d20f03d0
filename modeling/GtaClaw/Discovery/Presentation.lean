import GtaClaw.Discovery.Name

/-!
# Names as text

`display` closes every label with a dot and escapes what a parser could mistake:
a dot, a backslash, and every byte outside the printable ASCII range. The text is
held as its bytes; all of them are ASCII.

The parser takes one byte or one escape at a time, so the round trip is a fact
about one escaped byte in front of anything (`parseLabels_escapeByte`).
-/

namespace GtaClaw.Discovery

open List

/-- `u8::is_ascii_digit`. -/
def isAsciiDigit (b : UInt8) : Bool := 48 ≤ b && b ≤ 57

/-- The byte that an escape stands for and what comes behind it, given the bytes
behind the backslash. -/
def decodeEscape : List UInt8 → Except DnsSdError (UInt8 × List UInt8)
  | [] => .error .badEscape
  | first :: rest =>
    if ¬isAsciiDigit first then .ok (first, rest)
    else
      match rest with
      | second :: third :: rest =>
        if ¬isAsciiDigit second ∨ ¬isAsciiDigit third then .error .badEscape
        else
          let value := (first - 48).toNat * 100 + (second - 48).toNat * 10 + (third - 48).toNat
          if value ≤ 255 then .ok (UInt8.ofNat value, rest) else .error .badEscape
      | _ => .error .badEscape

theorem decodeEscape_shorter {bytes rest : List UInt8} {value : UInt8}
    (h : decodeEscape bytes = .ok (value, rest)) : rest.length < bytes.length := by
  fun_cases decodeEscape bytes <;> simp_all [decodeEscape] <;> grind

/-- The loop of `Name::parse`. -/
def parseLabels (labels : List Label) (current : Label) (endedWithDot : Bool) (bytes : List UInt8) :
    Except DnsSdError (List Label) :=
  match bytes with
  | [] => .ok (if endedWithDot then labels else labels ++ [current])
  | byte :: rest =>
    if byte = 46 then parseLabels (labels ++ [current]) [] true rest
    else if byte = 92 then
      match _h : decodeEscape rest with
      | .error e => .error e
      | .ok (value, rest') => parseLabels labels (current ++ [value]) false rest'
    else parseLabels labels (current ++ [byte]) false rest
termination_by bytes.length
decreasing_by
  all_goals simp only [List.length_cons]
  · omega
  · have := decodeEscape_shorter _h
    omega
  · omega

def Name.parse (bytes : List UInt8) : Except DnsSdError Name :=
  if bytes = [] ∨ bytes = [46] then .ok ⟨[], rfl⟩
  else do
    let labels ← parseLabels [] [] false bytes
    Name.fromLabels labels

def escapeByte (byte : UInt8) : List UInt8 :=
  if byte = 46 then [92, 46]
  else if byte = 92 then [92, 92]
  else if 0x20 ≤ byte ∧ byte ≤ 0x7e then [byte]
  else [92, 48 + byte / 100, 48 + byte / 10 % 10, 48 + byte % 10]

def escapeLabel (label : Label) : List UInt8 := label.flatMap escapeByte

def displayLabels (labels : List Label) : List UInt8 :=
  labels.flatMap fun label => escapeLabel label ++ [46]

/-- The `Display` text of a name. -/
def Name.display (n : Name) : List UInt8 :=
  if n.labels.isEmpty then [46] else displayLabels n.labels

variable {labels : List Label} {current : Label} {ended : Bool} {rest : List UInt8}

theorem parseLabels_dot :
    parseLabels labels current ended (46 :: rest) = parseLabels (labels ++ [current]) [] true rest := by
  rw [parseLabels, if_pos rfl]

/-- Three decimal digits are read back as the byte they were written for. -/
theorem decodeEscape_digits (byte : UInt8) :
    decodeEscape ([48 + byte / 100, 48 + byte / 10 % 10, 48 + byte % 10] ++ rest)
      = .ok (byte, rest) := by
  have hall : ∀ n : Fin 256, let byte := UInt8.ofNat n
      isAsciiDigit (48 + byte / 100) ∧ isAsciiDigit (48 + byte / 10 % 10)
        ∧ isAsciiDigit (48 + byte % 10)
        ∧ (48 + byte / 100 - 48).toNat * 100 + (48 + byte / 10 % 10 - 48).toNat * 10
          + (48 + byte % 10 - 48).toNat = byte.toNat := by
    decide +kernel
  have hbyte := hall ⟨byte.toNat, byte.toNat_lt⟩
  simp only [UInt8.ofNat_toNat] at hbyte
  obtain ⟨hfirst, hsecond, hthird, hvalue⟩ := hbyte
  have hle : byte.toNat ≤ 255 := Nat.le_of_lt_succ byte.toNat_lt
  simp only [cons_append, nil_append, decodeEscape, hfirst, hsecond, hthird, hvalue,
    not_true_eq_false, or_self, if_false, if_pos hle, UInt8.ofNat_toNat]

/-- **An escaped byte is read back**, whatever comes behind it. -/
theorem parseLabels_escapeByte (byte : UInt8) :
    parseLabels labels current ended (escapeByte byte ++ rest)
      = parseLabels labels (current ++ [byte]) false rest := by
  unfold escapeByte
  split_ifs with hdot hslash hprint
  · subst hdot
    rw [cons_append, parseLabels]
    rfl
  · subst hslash
    rw [cons_append, parseLabels]
    rfl
  · rw [cons_append, parseLabels, if_neg hdot, if_neg hslash, nil_append]
  · rw [cons_append, parseLabels, if_neg (by decide), if_pos rfl]
    split
    · rename_i heq
      rw [decodeEscape_digits] at heq
      cases heq
    · rename_i heq
      rw [decodeEscape_digits] at heq
      cases heq
      rfl

theorem parseLabels_escapeLabel (label : Label) :
    parseLabels labels current ended (escapeLabel label ++ 46 :: rest)
      = parseLabels (labels ++ [current ++ label]) [] true rest := by
  induction label generalizing current ended with
  | nil => rw [append_nil]; exact parseLabels_dot
  | cons byte label ih =>
    rw [escapeLabel, flatMap_cons, append_assoc, parseLabels_escapeByte]
    refine ih.trans ?_
    rw [append_assoc]
    rfl

theorem parseLabels_display (more : List Label) (h : more ≠ [] ∨ ended = true) :
    parseLabels labels [] ended (displayLabels more) = .ok (labels ++ more) := by
  induction more generalizing labels ended with
  | nil =>
    rw [displayLabels, flatMap_nil, parseLabels, h.resolve_left (fun hne => hne rfl),
      append_nil]
    rfl
  | cons label more ih =>
    rw [displayLabels, flatMap_cons, append_assoc, singleton_append,
      parseLabels_escapeLabel, nil_append]
    refine (ih (.inr rfl)).trans ?_
    rw [append_assoc]
    rfl

/-- The text of a name with labels is longer than that of the root. -/
theorem two_le_displayLabels {label : Label} {more : List Label} (h : label ≠ []) :
    2 ≤ (displayLabels (label :: more)).length := by
  obtain ⟨byte, tail, rfl⟩ := exists_cons_of_ne_nil h
  have hbyte : 1 ≤ (escapeByte byte).length := by
    unfold escapeByte
    split_ifs <;> simp
  simp only [displayLabels, escapeLabel, flatMap_cons, length_append,
    length_singleton]
  omega

theorem parse_display (n : Name) : Name.parse n.display = .ok n := by
  obtain ⟨labels, hvalid⟩ := n
  cases labels with
  | nil => rfl
  | cons label more =>
    have hlength : 2 ≤ (displayLabels (label :: more)).length :=
      two_le_displayLabels ((validate_ok.mp hvalid).1 label mem_cons_self).1
    have hroot : ¬(displayLabels (label :: more) = [] ∨ displayLabels (label :: more) = [46]) := by
      intro hroot
      rcases hroot with heq | heq <;> rw [heq] at hlength <;> exact absurd hlength (by decide)
    show Name.parse (displayLabels (label :: more)) = _
    rw [Name.parse, if_neg hroot, parseLabels_display _ (.inl (cons_ne_nil _ _))]
    exact Name.fromLabels_of_valid hvalid

theorem display_ascii (n : Name) : ∀ byte ∈ n.display, byte < 128 := by
  have hall : ∀ n : Fin 256, (escapeByte (.ofNat n)).all (· < 128) := by decide +kernel
  intro byte hmem
  unfold Name.display at hmem
  split at hmem
  · cases mem_singleton.mp hmem
    decide
  obtain ⟨label, -, hmem⟩ := mem_flatMap.mp hmem
  rcases mem_append.mp hmem with hmem | hmem
  · obtain ⟨raw, -, hmem⟩ := mem_flatMap.mp hmem
    have hraw := hall ⟨raw.toNat, raw.toNat_lt⟩
    rw [UInt8.ofNat_toNat, all_eq_true] at hraw
    exact of_decide_eq_true (hraw byte hmem)
  · cases mem_singleton.mp hmem
    decide

/-- **Every name is read back from its text**, so no two names have one text. -/
theorem name_text_round_trip :
    (∀ n : Name, (∀ byte ∈ n.display, byte < 128) ∧ Name.parse n.display = .ok n)
      ∧ Function.Injective Name.display := by
  refine ⟨fun n => ⟨display_ascii n, parse_display n⟩, fun n n' htext => ?_⟩
  have hsame := parse_display n
  rw [htext, parse_display] at hsame
  exact (Except.ok.inj hsame).symm

end GtaClaw.Discovery
