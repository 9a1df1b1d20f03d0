import GtaClaw.Gateway.Events
import GtaClaw.Lib.Strings

/-!
# Credential keys and the reserved namespace

A key is a service and an account, both checked when it is built. Transactions keep
their own entries under a service of their own: `manifest.<id>`, `shadow.<id>.<slot>`
and `lock.claim`. Recovery finds them again by their names, so the second half of the
file shows that each name is made by one entry only and taken apart to that entry.
-/

namespace GtaClaw.Secret

open Lib Gateway List

inductive SecretStoreError where
  | invalidKey
  | backend (backend detail : String)
  | unknownTransaction
  | transactionConflict
  | transactionCommitted
  | transactionAborted
  | transactionCorrupt (backend : String)
  deriving DecidableEq, Repr

def usableComponent (component : String) : Bool :=
  !component.isEmpty && decide (component.utf8ByteSize ≤ 256) && !component.toList.any isControl

structure CredentialKey where
  service : String
  account : String
  usable : usableComponent service = true ∧ usableComponent account = true
  deriving DecidableEq, Repr

def CredentialKey.new (service account : String) : Except SecretStoreError CredentialKey :=
  if h : usableComponent service = true ∧ usableComponent account = true then
    .ok ⟨service, account, h⟩
  else .error .invalidKey

open CredentialKey

theorem CredentialKey.new_self (key : CredentialKey) :
    new key.service key.account = .ok key := dif_pos key.usable

/-! ## Transaction identifiers -/

def idHexLen : Nat := 32

def usableId (value : String) : Bool :=
  value.utf8ByteSize = idHexLen && value.toList.all fun c => c.isDigit || ('a' ≤ c && c ≤ 'f')

structure TransactionId where
  asStr : String
  usable : usableId asStr = true
  deriving DecidableEq, Repr

def TransactionId.parse (value : String) : Option TransactionId :=
  if h : usableId value = true then some ⟨value, h⟩ else none

variable (id : TransactionId)

theorem TransactionId.parse_asStr : TransactionId.parse id.asStr = some id := dif_pos id.usable

/-! ## Reserved names -/

def transactionService : String := "gta-claw.secret-transaction"

def manifestPrefix : String := "manifest."

def shadowPrefix : String := "shadow."

def lockAccount : String := "lock.claim"

def reservedKey (account : String) : Except SecretStoreError CredentialKey :=
  CredentialKey.new transactionService account

variable (id : TransactionId)

def manifestAccount : String := manifestPrefix ++ id.asStr

def shadowAccount (slot : UInt32) : String := shadowPrefix ++ id.asStr ++ "." ++ toString slot.toNat

def manifestKey : Except SecretStoreError CredentialKey := reservedKey (manifestAccount id)

def shadowKey (slot : UInt32) : Except SecretStoreError CredentialKey :=
  reservedKey (shadowAccount id slot)

def lockKey : Except SecretStoreError CredentialKey := reservedKey lockAccount

/-- The transaction whose manifest is kept under this account. -/
def manifestId (account : String) : Option TransactionId :=
  match manifestPrefix.toList.isPrefixOf? account.toList with
  | none => none
  | some raw => TransactionId.parse (String.ofList raw)

/-- The transaction of which a shadow is kept under this account. -/
def shadowId (account : String) : Option TransactionId :=
  match shadowPrefix.toList.isPrefixOf? account.toList with
  | none => none
  | some raw => (rsplitOnce '.' raw).bind fun parts => TransactionId.parse (String.ofList parts.1)

/-! ## The reserved keys are keys -/

theorem any_isControl_of_hex {text : List Char}
    (h : ∀ c ∈ text, (c.isDigit || ('a' ≤ c && c ≤ 'f')) = true) : text.any isControl = false := by
  refine any_eq_false.mpr fun c hc => ?_
  have hhex := h c hc
  have hbounds : 48 ≤ c.toNat ∧ c.toNat ≤ 102 := by
    rw [Bool.or_eq_true, Bool.and_eq_true, decide_eq_true_eq, decide_eq_true_eq] at hhex
    rcases hhex with hdigit | ⟨hlow, hhigh⟩
    · obtain ⟨hlow, hhigh⟩ := Char.isDigit_iff_toNat.mp hdigit
      exact ⟨hlow, hhigh.trans (by decide)⟩
    · exact ⟨Nat.le_trans (by decide) (Char.le_def.mp hlow), Char.le_def.mp hhigh⟩
  unfold isControl
  rw [Bool.or_eq_true, Bool.and_eq_true, decide_eq_true_eq, decide_eq_true_eq, decide_eq_true_eq]
  omega

theorem TransactionId.hex : ∀ c ∈ id.asStr.toList, (c.isDigit || ('a' ≤ c && c ≤ 'f')) = true := by
  have h := id.usable
  unfold usableId at h
  rw [Bool.and_eq_true] at h
  exact all_eq_true.mp h.2

theorem TransactionId.size : id.asStr.utf8ByteSize = idHexLen := by
  have h := id.usable
  unfold usableId at h
  rw [Bool.and_eq_true] at h
  exact of_decide_eq_true h.1

theorem utf8ByteSize_ofList_le (text : List Char) :
    (String.ofList text).utf8ByteSize ≤ 4 * text.length := by
  induction text with
  | nil => exact Nat.le_refl 0
  | cons c rest ih =>
    have hcons : String.ofList (c :: rest) = String.singleton c ++ String.ofList rest :=
      String.toList_inj.mp (by simp)
    have hc := Char.utf8Size_le_four c
    rw [hcons, String.utf8ByteSize_append, String.utf8ByteSize_singleton, length_cons]
    omega

variable (slot : UInt32)

theorem slot_toList : (toString slot.toNat).toList = Nat.toDigits 10 slot.toNat := Nat.toList_repr

theorem slot_hex :
    ∀ c ∈ (toString slot.toNat).toList, (c.isDigit || ('a' ≤ c && c ≤ 'f')) = true := by
  intro c hc
  rw [slot_toList] at hc
  rw [Nat.isDigit_of_mem_toDigits (by decide) (by decide) hc, Bool.true_or]

theorem slot_size : (toString slot.toNat).utf8ByteSize ≤ 40 := by
  have hlen : (Nat.toDigits 10 slot.toNat).length ≤ 10 :=
    (Nat.length_toDigits_le_iff (by decide) (by decide)).mpr
      (slot.toNat_lt.trans (by decide))
  have h := utf8ByteSize_ofList_le (Nat.toDigits 10 slot.toNat)
  rw [Nat.toString_eq_ofList_toDigits]
  omega

theorem usableComponent_of {component : String} (hempty : 0 < component.utf8ByteSize)
    (hsize : component.utf8ByteSize ≤ 256) (hnone : component.toList.any isControl = false) :
    usableComponent component = true := by
  have hsome : component.isEmpty = false := by
    rw [Bool.eq_false_iff]
    intro h
    have hzero := String.isEmpty_iff_utf8ByteSize_eq_zero.mp h
    omega
  unfold usableComponent
  rw [hsome, hnone, decide_eq_true hsize]
  rfl

theorem usable_service : usableComponent transactionService = true := by decide +kernel

theorem usable_manifestAccount : usableComponent (manifestAccount id) = true := by
  have hsize : (manifestAccount id).utf8ByteSize = 41 := by
    rw [manifestAccount, String.utf8ByteSize_append, id.size]
    decide +kernel
  refine usableComponent_of (by omega) (by omega) ?_
  rw [manifestAccount, String.toList_append, any_append, any_isControl_of_hex id.hex]
  decide +kernel

theorem usable_shadowAccount : usableComponent (shadowAccount id slot) = true := by
  have hsize : (shadowAccount id slot).utf8ByteSize = 40 + (toString slot.toNat).utf8ByteSize := by
    rw [shadowAccount, String.utf8ByteSize_append, String.utf8ByteSize_append,
      String.utf8ByteSize_append, id.size]
    rfl
  have hslot := slot_size slot
  refine usableComponent_of (by omega) (by omega) ?_
  rw [shadowAccount, String.toList_append, String.toList_append, String.toList_append,
    any_append, any_append, any_append, any_isControl_of_hex id.hex,
    any_isControl_of_hex (slot_hex slot)]
  decide +kernel

def manifestAt : CredentialKey :=
  ⟨transactionService, manifestAccount id, usable_service, usable_manifestAccount id⟩

def shadowAt (slot : UInt32) : CredentialKey :=
  ⟨transactionService, shadowAccount id slot, usable_service, usable_shadowAccount id slot⟩

def lockAt : CredentialKey := ⟨transactionService, lockAccount, usable_service, by decide +kernel⟩

theorem manifestKey_eq : manifestKey id = .ok (manifestAt id) := (manifestAt id).new_self

theorem shadowKey_eq : shadowKey id slot = .ok (shadowAt id slot) := (shadowAt id slot).new_self

/-! ## The names are taken apart as they were made -/

theorem manifestAccount_toList :
    (manifestAccount id).toList = manifestPrefix.toList ++ id.asStr.toList :=
  String.toList_append

theorem shadowAccount_toList :
    (shadowAccount id slot).toList
      = shadowPrefix.toList ++ (id.asStr.toList ++ '.' :: (toString slot.toNat).toList) := by
  rw [shadowAccount, String.toList_append, String.toList_append, String.toList_append,
    append_assoc, append_assoc]
  rfl

theorem dot_notMem_slot : '.' ∉ (toString slot.toNat).toList :=
  fun h => absurd (slot_hex slot '.' h) (by decide)

theorem manifestId_manifestAccount : manifestId (manifestAccount id) = some id := by
  unfold manifestId
  rw [manifestAccount_toList, isPrefixOf?_append]
  dsimp only
  rw [String.ofList_toList, id.parse_asStr]

theorem shadowId_shadowAccount : shadowId (shadowAccount id slot) = some id := by
  unfold shadowId
  rw [shadowAccount_toList, isPrefixOf?_append]
  dsimp only
  rw [rsplitOnce_append (dot_notMem_slot slot), Option.bind_some, String.ofList_toList,
    id.parse_asStr]

theorem manifestId_shadowAccount : manifestId (shadowAccount id slot) = none := by
  unfold manifestId
  rw [shadowAccount_toList]
  rfl

theorem shadowId_manifestAccount : shadowId (manifestAccount id) = none := by
  unfold shadowId
  rw [manifestAccount_toList]
  rfl

theorem manifestId_lockAccount : manifestId lockAccount = none := by decide +kernel

theorem shadowId_lockAccount : shadowId lockAccount = none := by decide +kernel

theorem shadowAt_inj {id id' : TransactionId} {slot slot' : UInt32}
    (h : shadowAt id slot = shadowAt id' slot') : id = id' ∧ slot = slot' := by
  have haccount : shadowAccount id slot = shadowAccount id' slot' := congrArg account h
  have hid : id = id' := by
    have hsome := shadowId_shadowAccount id slot
    rw [haccount, shadowId_shadowAccount] at hsome
    exact (Option.some.inj hsome).symm
  have hlist := congrArg String.toList haccount
  rw [hid, shadowAccount_toList, shadowAccount_toList, append_cancel_left_eq,
    append_cancel_left_eq, slot_toList, slot_toList] at hlist
  have hvalue := congrArg (fun digits => Nat.ofDigitChars 10 digits 0) (cons.inj hlist).2
  rw [Nat.ofDigitChars_toDigits (by decide) (by decide),
    Nat.ofDigitChars_toDigits (by decide) (by decide)] at hvalue
  exact ⟨hid, UInt32.toNat_inj.mp hvalue⟩

theorem manifestAt_ne_shadowAt (id id' : TransactionId) (slot : UInt32) :
    manifestAt id ≠ shadowAt id' slot := by
  intro h
  have hsome := manifestId_manifestAccount id
  rw [show manifestAccount id = shadowAccount id' slot from congrArg account h,
    manifestId_shadowAccount] at hsome
  cases hsome

theorem manifestAt_ne_lockAt : manifestAt id ≠ lockAt := by
  intro h
  have hsome := manifestId_manifestAccount id
  rw [show manifestAccount id = lockAccount from congrArg account h,
    manifestId_lockAccount] at hsome
  cases hsome

theorem shadowAt_ne_lockAt : shadowAt id slot ≠ lockAt := by
  intro h
  have hsome := shadowId_shadowAccount id slot
  rw [show shadowAccount id slot = lockAccount from congrArg account h,
    shadowId_lockAccount] at hsome
  cases hsome

end GtaClaw.Secret
