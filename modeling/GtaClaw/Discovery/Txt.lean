import GtaClaw.Lib.Loop
import GtaClaw.Lib.Bytes
import GtaClaw.Discovery.Name

/-!
# TXT records

A TXT record is a list of length-prefixed character strings, each at most 255
bytes. `push_raw` is the only way to add a string and it bounds the length, so
the bound is a field.

An empty record encodes as a single zero-length string, and the decoder turns a
single zero-length string back into the empty record. Every other record comes
back as it was.
-/

namespace GtaClaw.Discovery

open Lib

/-- An ordered list of TXT character strings. -/
structure TxtRecord where
  strings : List (List UInt8)
  /-- Each fits its one-byte length prefix. -/
  bounded : ∀ string ∈ strings, string.length ≤ 255
  deriving DecidableEq

/-- The length-prefixed strings, back to back. -/
def encodeStrings : List (List UInt8) → List UInt8
  | [] => []
  | string :: rest =>
    let length := (u8TryFrom string.length).getD 255
    length :: string.take length.toNat ++ encodeStrings rest

/-- The record body, without the enclosing resource record header. -/
def TxtRecord.encode (record : TxtRecord) : List UInt8 :=
  if record.strings.isEmpty then [0] else encodeStrings record.strings

/-- Where the string loop of `TxtRecord::decode` stands. -/
structure TxtState where
  index : Nat
  strings : List (List UInt8)

variable (bytes : List UInt8)

/-- One pass of the string loop: a length byte and the string behind it. -/
def txtPass (s : TxtState) : Except DnsSdError (TxtState ⊕ List (List UInt8)) :=
  match bytes[s.index]? with
  | none => .ok (.inr s.strings)
  | some lengthByte =>
    let index := s.index + 1
    let stop := index + lengthByte.toNat
    if stop > bytes.length then .error .truncated
    else .ok (.inl ⟨stop, s.strings ++ [slice bytes index stop]⟩)

theorem txtPass_inl {bytes : List UInt8} {s s' : TxtState} (h : txtPass bytes s = .ok (.inl s')) :
    s.index < s'.index ∧ s'.index ≤ bytes.length
      ∧ ∃ string, string = slice bytes (s.index + 1) s'.index ∧ string.length ≤ 255
      ∧ s'.strings = s.strings ++ [string] := by
  unfold txtPass at h
  split at h
  · simp at h
  rename_i lengthByte _
  dsimp only at h
  split at h
  · simp at h
  simp only [Except.ok.injEq, Sum.inl.injEq] at h
  subst h
  have hb := lengthByte.toNat_lt
  refine ⟨by dsimp only; omega, by dsimp only; omega, _, rfl, ?_, rfl⟩
  dsimp only
  rw [slice_length _ (by omega)]
  omega

def txtLoop : Loop TxtState (Except DnsSdError (List (List UInt8))) :=
  Loop.fallible (txtPass bytes) (fun s => bytes.length - s.index) (by
    intro s s' h
    obtain ⟨h₁, h₂, _⟩ := txtPass_inl h
    omega)

def decodeStrings : Except DnsSdError (List (List UInt8)) := (txtLoop bytes).run ⟨0, []⟩

theorem decodeStrings_bounded {bytes : List UInt8} {strings : List (List UInt8)}
    (h : decodeStrings bytes = .ok strings) : ∀ string ∈ strings, string.length ≤ 255 := by
  revert h
  refine (txtLoop bytes).run_inv
    (P := fun s => ∀ string ∈ s.strings, string.length ≤ 255)
    (Q := fun r => r = .ok strings → ∀ string ∈ strings, string.length ≤ 255)
    ?_ ?_ (s := ⟨0, []⟩) (by simp)
  · intro s s' hs hb
    obtain ⟨_, _, string, -, hlen, heq⟩ := txtPass_inl (Loop.tryPass_inl.mp hb)
    rw [heq]
    exact List.forall_mem_append.mpr ⟨hs, List.forall_mem_singleton.mpr hlen⟩
  · intro s r hs hb hr
    subst hr
    have hpass := Loop.tryPass_ok.mp hb
    unfold txtPass at hpass
    split at hpass
    · simp only [Except.ok.injEq, Sum.inr.injEq] at hpass
      exact hpass ▸ hs
    · dsimp only at hpass
      split at hpass <;> simp at hpass

def TxtRecord.decode : Except DnsSdError TxtRecord :=
  if bytes.isEmpty then .error .emptyTxtRdata
  else
    match h : decodeStrings bytes with
    | .error e => .error e
    | .ok strings =>
      if strings = [[]] then .ok ⟨[], by simp⟩
      else .ok ⟨strings, decodeStrings_bounded h⟩

/-! ## The round trip -/

theorem encodeStrings_cons {string : List UInt8} (h : string.length ≤ 255)
    (rest : List (List UInt8)) :
    encodeStrings (string :: rest)
      = UInt8.ofNat string.length :: string ++ encodeStrings rest := by
  rw [encodeStrings, u8TryFrom_of_lt (by omega)]
  have hto : (UInt8.ofNat string.length).toNat = string.length := by rw [UInt8.toNat_ofNat']; omega
  simp only [Option.getD_some, hto, List.take_length]

theorem txtLoop_encodeStrings : ∀ (strings : List (List UInt8)) (before : List UInt8)
    (done : List (List UInt8)), (∀ string ∈ strings, string.length ≤ 255) →
    (txtLoop (before ++ encodeStrings strings)).run ⟨before.length, done⟩
      = .ok (done ++ strings)
  | [], before, done, _ => by
    rw [txtLoop, Loop.fallible_exit (a := done)]
    · simp
    · simp [txtPass, encodeStrings]
  | string :: rest, before, done, hb => by
    have hlen : string.length ≤ 255 := hb string (List.mem_cons_self ..)
    have hrest : ∀ s ∈ rest, s.length ≤ 255 := (List.forall_mem_cons.mp hb).2
    have hto : (UInt8.ofNat string.length).toNat = string.length := by
      rw [UInt8.toNat_ofNat']; omega
    -- the same bytes, regrouped so that the string just read is in front
    have hsplit : before ++ encodeStrings (string :: rest)
        = (before ++ [UInt8.ofNat string.length] ++ string) ++ encodeStrings rest := by
      rw [encodeStrings_cons hlen]; simp
    have hread : (before ++ encodeStrings (string :: rest))[before.length]?
        = some (UInt8.ofNat string.length) := by
      rw [encodeStrings_cons hlen]; simp
    have hpass : txtPass (before ++ encodeStrings (string :: rest)) ⟨before.length, done⟩
        = .ok (.inl ⟨(before ++ [UInt8.ofNat string.length] ++ string).length,
            done ++ [string]⟩) := by
      unfold txtPass
      rw [hread]
      dsimp only
      rw [hto, hsplit, if_neg (by simp; omega)]
      have hsl := slice_append (before ++ [UInt8.ofNat string.length]) string
        (encodeStrings rest)
      simp only [List.length_append, List.length_singleton] at hsl ⊢
      rw [hsl]
    rw [txtLoop, Loop.fallible_pass hpass, ← txtLoop, hsplit,
      txtLoop_encodeStrings rest _ (done ++ [string]) hrest]
    simp

/-- **Decoding an encoded record gives it back**, unless it is the one-empty-string record. -/
theorem TxtRecord.decode_encode (record : TxtRecord) (h : record.strings ≠ [[]]) :
    TxtRecord.decode record.encode = .ok record := by
  obtain ⟨strings, hb⟩ := record
  cases strings with
  | nil => rfl
  | cons string rest =>
    have hrun : decodeStrings (encodeStrings (string :: rest)) = .ok (string :: rest) := by
      simpa [decodeStrings] using txtLoop_encodeStrings (string :: rest) [] [] hb
    have hne : (encodeStrings (string :: rest)).isEmpty = false := by
      rw [encodeStrings_cons (hb string (List.mem_cons_self ..))]; rfl
    unfold TxtRecord.decode
    have henc : TxtRecord.encode ⟨string :: rest, hb⟩ = encodeStrings (string :: rest) := rfl
    rw [henc, hne]
    simp only [Bool.false_eq_true, if_false]
    split
    · rename_i e he; rw [hrun] at he; cases he
    rename_i strings' he
    rw [hrun] at he
    cases he
    exact if_neg h

end GtaClaw.Discovery
