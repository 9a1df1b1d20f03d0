import Mathlib.Tactic

/-!
# Fixed-width integers as bytes

Big-endian bytes of the machine integers, the checked narrowing conversions, and
the flag bits that formats keep in the top of a field. Bytes are `List UInt8`.

The facts other modules use are the round trips, and what a mask leaves of a
field whose top bits were clear before the flag was set.
-/

namespace GtaClaw.Lib

/-! ## Big-endian integers -/

/-- `u16::to_be_bytes`. -/
def beU16 (x : UInt16) : List UInt8 := [UInt8.ofNat (x.toNat / 256), UInt8.ofNat (x.toNat % 256)]

/-- `u16::from_be_bytes`. -/
def ofBeU16 (hi lo : UInt8) : UInt16 := UInt16.ofNat (hi.toNat * 256 + lo.toNat)

/-- `u32::to_be_bytes`. -/
def beU32 (x : UInt32) : List UInt8 :=
  [UInt8.ofNat (x.toNat / 16777216), UInt8.ofNat (x.toNat / 65536 % 256),
    UInt8.ofNat (x.toNat / 256 % 256), UInt8.ofNat (x.toNat % 256)]

/-- `u32::from_be_bytes`. -/
def ofBeU32 (b₀ b₁ b₂ b₃ : UInt8) : UInt32 :=
  UInt32.ofNat (b₀.toNat * 16777216 + b₁.toNat * 65536 + b₂.toNat * 256 + b₃.toNat)

@[simp] theorem beU16_length (x : UInt16) : (beU16 x).length = 2 := rfl

@[simp] theorem beU32_length (x : UInt32) : (beU32 x).length = 4 := rfl

theorem ofBeU16_toNat (hi lo : UInt8) : (ofBeU16 hi lo).toNat = hi.toNat * 256 + lo.toNat := by
  have h₁ := hi.toNat_lt
  have h₂ := lo.toNat_lt
  simp only [ofBeU16, UInt16.toNat_ofNat']
  omega

theorem ofBeU16_beU16 (x : UInt16) :
    ofBeU16 (UInt8.ofNat (x.toNat / 256)) (UInt8.ofNat (x.toNat % 256)) = x := by
  have h := x.toNat_lt
  apply UInt16.toNat_inj.mp
  rw [ofBeU16_toNat]
  simp only [UInt8.toNat_ofNat']
  omega

theorem ofBeU32_beU32 (x : UInt32) :
    ofBeU32 (UInt8.ofNat (x.toNat / 16777216)) (UInt8.ofNat (x.toNat / 65536 % 256))
      (UInt8.ofNat (x.toNat / 256 % 256)) (UInt8.ofNat (x.toNat % 256)) = x := by
  have h := x.toNat_lt
  apply UInt32.toNat_inj.mp
  simp only [ofBeU32, UInt8.toNat_ofNat', UInt32.toNat_ofNat']
  omega

/-! ## Slices -/

/-- `&xs[start..stop]`. -/
def slice {α : Type} (xs : List α) (start stop : Nat) : List α := (xs.drop start).take (stop - start)

/-- What was written between two other runs is the slice between their ends. -/
theorem slice_append {α : Type} (before mid after : List α) :
    slice (before ++ mid ++ after) before.length (before.length + mid.length) = mid := by
  unfold slice
  rw [List.append_assoc, List.drop_left, Nat.add_sub_cancel_left, List.take_left]

theorem slice_length {α : Type} (xs : List α) {start stop : Nat} (h : stop ≤ xs.length) :
    (slice xs start stop).length = stop - start := by
  unfold slice
  rw [List.length_take, List.length_drop]
  omega

/-! ## Checked narrowing -/

/-- `u8::try_from(usize)`. -/
def u8TryFrom (n : Nat) : Option UInt8 := if n < 256 then some (UInt8.ofNat n) else none

/-- `u16::try_from(usize)`. -/
def u16TryFrom (n : Nat) : Option UInt16 := if n < 65536 then some (UInt16.ofNat n) else none

theorem u8TryFrom_of_lt {n : Nat} (h : n < 256) : u8TryFrom n = some (UInt8.ofNat n) := if_pos h

theorem u16TryFrom_of_lt {n : Nat} (h : n < 65536) : u16TryFrom n = some (UInt16.ofNat n) :=
  if_pos h

variable {x : UInt16}

theorem u16TryFrom_eq_some {n : Nat} (h : u16TryFrom n = some x) : n < 65536 ∧ x.toNat = n := by
  unfold u16TryFrom at h
  split at h
  · rename_i hn
    cases h
    exact ⟨hn, by simp only [UInt16.toNat_ofNat']; omega⟩
  · exact absurd h (by simp)

/-! ## Flag bits in the top of a field -/

section Flag

variable {w : Nat} {x m k : BitVec w}

theorem bits_clear (h : x &&& m = 0#w) (i : Nat) : (x.getLsbD i && m.getLsbD i) = false := by
  have := congrArg (fun b => BitVec.getLsbD b i) h
  simpa only [BitVec.getLsbD_and, BitVec.getLsbD_zero] using this

/-- Clearing the mask undoes a flag within it. -/
theorem or_and_not_of_clear (h : x &&& m = 0#w) (hflag : k &&& ~~~m = 0#w) :
    (x ||| k) &&& ~~~m = x := by
  apply BitVec.eq_of_getLsbD_eq
  intro i hi
  have hc := bits_clear h i
  have hk := bits_clear hflag i
  simp only [BitVec.getLsbD_and, BitVec.getLsbD_or, BitVec.getLsbD_not, hi] at hk ⊢
  revert hc hk
  cases x.getLsbD i <;> cases m.getLsbD i <;> simp

theorem or_and_self (x m : BitVec w) : (x ||| m) &&& m = m := by
  apply BitVec.eq_of_getLsbD_eq
  intro i _
  simp only [BitVec.getLsbD_and, BitVec.getLsbD_or]
  cases x.getLsbD i <;> cases m.getLsbD i <;> simp

end Flag

/-- A 16-bit field with its top bit taken as a flag. -/
def withFlag (x : UInt16) (flag : Bool) : UInt16 := x ||| if flag then 0x8000 else 0

theorem withFlag_field (h : x &&& 0x8000 = 0) (flag : Bool) :
    withFlag x flag &&& ~~~0x8000 = x := by
  have hb : x.toBitVec &&& 0x8000#16 = 0#16 := congrArg UInt16.toBitVec h
  apply UInt16.eq_of_toBitVec_eq
  cases flag with
  | false | true => exact or_and_not_of_clear hb rfl

theorem withFlag_flag (h : x &&& 0x8000 = 0) (flag : Bool) :
    (withFlag x flag &&& 0x8000 != 0) = flag := by
  cases flag with
  | false => simp [withFlag, h]
  | true =>
    have : withFlag x true &&& 0x8000 = 0x8000 := by
      apply UInt16.eq_of_toBitVec_eq
      exact or_and_self x.toBitVec 0x8000#16
    rw [this]
    decide

/-! ## Two tag bits in the top of a byte -/

theorem tag_clear : ∀ n < 64, UInt8.ofNat n &&& 0xc0 = 0 := by decide

/-- A byte from 192 on has both tag bits set, and the rest is what was added. -/
theorem tag_set : ∀ n < 64, UInt8.ofNat (192 + n) &&& 0xc0 = 0xc0
    ∧ UInt8.ofNat (192 + n) &&& ~~~0xc0 = UInt8.ofNat n := by decide

theorem tag_toNat (h : x.toNat < 16384) : (x ||| 0xc000).toNat = 49152 + x.toNat := by
  have hor : 49152 + x.toNat = 49152 ||| x.toNat :=
    Nat.two_pow_add_eq_or_of_lt (i := 14) (by omega) 3
  have hto : (x ||| 0xc000).toNat = x.toNat ||| 49152 := rfl
  rw [hto, Nat.or_comm]
  omega

end GtaClaw.Lib
