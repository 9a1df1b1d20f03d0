import GtaClaw.Lib.Prog
import GtaClaw.Lib.Table
import GtaClaw.Secret.Keys

/-!
# Transactions of the secret store

Before a key is changed its value is copied to a shadow entry of the same backend, the
manifest records the copy, and only then is the key written. `commit` flips the manifest
before it deletes anything; `rollback` puts the shadows back first.

Every operation is a program of backend calls, each of which is one step of the backend
and can fail. The clock of the lock is the number of times that it is found before the
deadline, the identifier that `begin` generates and the text of a manifest are parameters.
The backend lists accounts: one that cannot offers no transactions.
-/

namespace GtaClaw.Secret

open Lib

/-! ## The backend -/

inductive BackendOp (V : Type) where
  | get (key : CredentialKey)
  | set (key : CredentialKey) (secret : V)
  | delete (key : CredentialKey)
  | accounts (service : String)
  | insertIfAbsent (key : CredentialKey) (secret : V)

abbrev BackendOp.Value {V : Type} : BackendOp V → Type
  | .get _ => Option V
  | .set .. => Unit
  | .delete _ => Bool
  | .accounts _ => List String
  | .insertIfAbsent .. => Bool

abbrev BackendOp.Answer {V : Type} (op : BackendOp V) : Type := Except SecretStoreError op.Value

abbrev Store (V : Type) := Table CredentialKey V

/-- What one step of the backend does when it does not fail. -/
def Store.exec {V : Type} (order : List String → List String) (s : Store V) :
    (op : BackendOp V) → op.Value × Store V
  | .get key => (s.lookup key, s)
  | .set key secret => ((), s.insert key secret)
  | .delete key => ((s.lookup key).isSome, s.erase key)
  | .accounts service => (order ((s.keys.filter (·.service = service)).map (·.account)), s)
  | .insertIfAbsent key secret =>
    if (s.lookup key).isSome then (false, s) else (true, s.insert key secret)

/-! ## Manifests -/

inductive TransactionState where
  | pending
  | committed
  | aborting
  deriving DecidableEq, Repr

structure ManifestEntry where
  service : String
  account : String
  slot : UInt32
  existed : Bool
  deriving DecidableEq, Repr

structure Manifest where
  version : Nat
  state : TransactionState
  entries : List ManifestEntry
  deriving DecidableEq, Repr

def manifestVersion : Nat := 1

def ManifestEntry.matchesKey (entry : ManifestEntry) (key : CredentialKey) : Bool :=
  entry.service = key.service && entry.account = key.account

def ManifestEntry.liveKey (entry : ManifestEntry) : Except SecretStoreError CredentialKey :=
  CredentialKey.new entry.service entry.account

def Manifest.holds (manifest : Manifest) (key : CredentialKey) : Bool :=
  manifest.entries.any (·.matchesKey key)

def Manifest.push (manifest : Manifest) (entry : ManifestEntry) : Manifest :=
  { manifest with entries := manifest.entries ++ [entry] }

inductive RecoveryOutcome where
  | rolledBack
  | commitCompleted
  deriving DecidableEq, Repr

structure RecoveredTransaction where
  id : TransactionId
  outcome : RecoveryOutcome
  deriving DecidableEq, Repr

/-- The backend's name, `serde_json` for manifests and `SecretString::new`. -/
structure Config (V : Type) where
  backend : String
  encode : Manifest → Option V
  decode : V → Option Manifest
  secret : String → V

/-! ## The operations -/

abbrev SecretM (V : Type) := ExceptT SecretStoreError (Prog (BackendOp V) BackendOp.Answer)

section Operations

variable {V : Type}

def ask (op : BackendOp V) : SecretM V op.Value := ExceptT.mk (.call op .ret)

def SecretM.ofExcept {α : Type} (result : Except SecretStoreError α) : SecretM V α :=
  ExceptT.mk (.ret result)

variable (config : Config V)

def corrupt : SecretStoreError := .transactionCorrupt config.backend

def reservedAccounts : SecretM V (List String) := ask (.accounts transactionService)

/-- What a stored manifest says. -/
def readManifest (raw : V) : Except SecretStoreError Manifest :=
  match config.decode raw with
  | none => .error (corrupt config)
  | some manifest =>
    if manifest.version ≠ manifestVersion then .error (corrupt config) else .ok manifest

def loadManifest (id : TransactionId) : SecretM V (Option Manifest) := do
  let key ← SecretM.ofExcept (manifestKey id)
  match ← ask (.get key) with
  | none => pure none
  | some raw => some <$> SecretM.ofExcept (readManifest config raw)

def saveManifest (id : TransactionId) (manifest : Manifest) : SecretM V Unit :=
  match config.encode manifest with
  | none => throw (corrupt config)
  | some encoded => do
    let key ← SecretM.ofExcept (manifestKey id)
    ask (.set key encoded)

/-- `begin`, with the identifier that it generates. -/
def begin (id : TransactionId) : SecretM V TransactionId := do
  let _ ← reservedAccounts
  let key ← SecretM.ofExcept (manifestKey id)
  if (← ask (.get key)).isSome then
    throw (.backend config.backend "a transaction identifier was reused")
  else
    saveManifest config id ⟨manifestVersion, .pending, []⟩
    pure id

def requirePending (id : TransactionId) : SecretM V Manifest := do
  match ← loadManifest config id with
  | none => throw .unknownTransaction
  | some manifest =>
    match manifest.state with
    | .pending => pure manifest
    | .committed => throw .transactionCommitted
    | .aborting => throw .transactionAborted

/-- The waiting for the lock; the deadline has passed after so many tries. -/
def claimLoop (key : CredentialKey) (holder : V) (breakStale : Bool) : Nat → SecretM V Unit
  | 0 => do
    if ← ask (.insertIfAbsent key holder) then pure ()
    else if !breakStale then throw .transactionConflict
    else
      let _ ← ask (.delete key)
      if ← ask (.insertIfAbsent key holder) then pure () else throw .transactionConflict
  | polls + 1 => do
    if ← ask (.insertIfAbsent key holder) then pure () else claimLoop key holder breakStale polls

def claim (holder : String) (breakStale : Bool) (polls : Nat) : SecretM V Unit := do
  let key ← SecretM.ofExcept lockKey
  claimLoop key (config.secret holder) breakStale polls

/-- The rest of a function that has claimed the lock: it is released when it returns,
and a failure to do so is ignored. -/
def holding {α : Type} (body : SecretM V α) : SecretM V α :=
  ExceptT.mk <| body.run.bind fun result =>
    match lockKey with
    | .ok key => .call (.delete key) fun _ => .ret result
    | .error _ => .ret result

def detectConflict (id : TransactionId) (key : CredentialKey) : List String → SecretM V Unit
  | [] => pure ()
  | account :: accounts =>
    match manifestId account with
    | none => detectConflict id key accounts
    | some other =>
      if other = id then detectConflict id key accounts
      else do
        match ← loadManifest config other with
        | none => detectConflict id key accounts
        | some manifest =>
          if manifest.state = .committed then detectConflict id key accounts
          else if manifest.holds key then throw .transactionConflict
          else detectConflict id key accounts

/-- `u32::try_from`. -/
def slotOf (n : Nat) : Option UInt32 := if n < 2 ^ 32 then some (UInt32.ofNat n) else none

/-- The value that is there, if any, is copied to the shadow. -/
def copyShadow (id : TransactionId) (slot : UInt32) : Option V → SecretM V Unit
  | none => pure ()
  | some value => do
    let shadow ← SecretM.ofExcept (shadowKey id slot)
    ask (.set shadow value)

/-- `snapshot`, once it has the lock. -/
def enrol (id : TransactionId) (key : CredentialKey) : SecretM V Unit := do
  let manifest ← requirePending config id
  if manifest.holds key then pure ()
  else
    let accounts ← reservedAccounts
    detectConflict config id key accounts
    match slotOf manifest.entries.length with
    | none => throw (.backend config.backend "the transaction holds too many keys")
    | some slot =>
      let current ← ask (.get key)
      copyShadow id slot current
      saveManifest config id
        (manifest.push ⟨key.service, key.account, slot, current.isSome⟩)

def snapshot (id : TransactionId) (key : CredentialKey) (polls : Nat) : SecretM V Unit :=
  if key.service = transactionService then throw .invalidKey
  else do
    let manifest ← requirePending config id
    if manifest.holds key then pure ()
    else
      claim config id.asStr false polls
      holding (enrol config id key)

def put (id : TransactionId) (key : CredentialKey) (secret : V) (polls : Nat) : SecretM V Unit := do
  snapshot config id key polls
  ask (.set key secret)

def remove (id : TransactionId) (key : CredentialKey) (polls : Nat) : SecretM V Bool := do
  snapshot config id key polls
  ask (.delete key)

def discardShadows (id : TransactionId) : List ManifestEntry → SecretM V Unit
  | [] => pure ()
  | entry :: entries => do
    let key ← SecretM.ofExcept (shadowKey id entry.slot)
    let _ ← ask (.delete key)
    discardShadows id entries

def discardBookkeeping (id : TransactionId) (manifest : Manifest) : SecretM V Unit := do
  discardShadows id manifest.entries
  let key ← SecretM.ofExcept (manifestKey id)
  let _ ← ask (.delete key)
  pure ()

def commit (id : TransactionId) : SecretM V Unit := do
  match ← loadManifest config id with
  | none => throw .unknownTransaction
  | some manifest =>
    match manifest.state with
    | .aborting => throw .transactionAborted
    | .pending => do
      saveManifest config id { manifest with state := .committed }
      discardBookkeeping id { manifest with state := .committed }
    | .committed => discardBookkeeping id manifest

def restoreEntry (id : TransactionId) (entry : ManifestEntry) : SecretM V Unit := do
  let live ← SecretM.ofExcept entry.liveKey
  if entry.existed then
    let key ← SecretM.ofExcept (shadowKey id entry.slot)
    match ← ask (.get key) with
    | none => throw (corrupt config)
    | some shadow => ask (.set live shadow)
  else
    let _ ← ask (.delete live)
    pure ()

/-- The loop of `finish_rollback`, over the entries in reverse. -/
def restoreEntries (id : TransactionId) : List ManifestEntry → SecretM V Unit
  | [] => pure ()
  | entry :: entries => do
    restoreEntry config id entry
    restoreEntries id entries

def finishRollback (id : TransactionId) (manifest : Manifest) : SecretM V Unit := do
  restoreEntries config id manifest.entries.reverse
  discardBookkeeping id manifest

def markAborting (id : TransactionId) (manifest : Manifest) : SecretM V Unit :=
  if manifest.state = .pending then saveManifest config id { manifest with state := .aborting }
  else pure ()

/-- A manifest that is not committed is marked as rolling back, and is then undone. -/
def undo (id : TransactionId) (manifest : Manifest) : SecretM V Unit := do
  markAborting config id manifest
  finishRollback config id { manifest with state := .aborting }

def rollback (id : TransactionId) : SecretM V Unit := do
  match ← loadManifest config id with
  | none => throw .unknownTransaction
  | some manifest =>
    if manifest.state = .committed then throw .transactionCommitted
    else undo config id manifest

/-! ## Recovery -/

def resolve (id : TransactionId) (manifest : Manifest) : SecretM V RecoveryOutcome :=
  if manifest.state = .committed then do
    discardBookkeeping id manifest
    pure .commitCompleted
  else do
    undo config id manifest
    pure .rolledBack

def recoverAll : List TransactionId → SecretM V (List RecoveredTransaction)
  | [] => pure []
  | id :: ids => do
    match ← loadManifest config id with
    | none => recoverAll ids
    | some manifest =>
      let outcome ← resolve config id manifest
      let recovered ← recoverAll ids
      pure (⟨id, outcome⟩ :: recovered)

def discardOrphans (known : List TransactionId) : List String → SecretM V Unit
  | [] => pure ()
  | account :: accounts =>
    match shadowId account with
    | none => discardOrphans known accounts
    | some id =>
      if id ∈ known then discardOrphans known accounts
      else do
        let key ← SecretM.ofExcept (reservedKey account)
        let _ ← ask (.delete key)
        discardOrphans known accounts

/-- The identifiers in a `BTreeSet`. -/
def knownIds (accounts : List String) : List TransactionId :=
  ((accounts.filterMap manifestId).dedup).insertionSort fun a b => a.asStr ≤ b.asStr

/-- `recover_pending`, once it has the lock. -/
def sweep : SecretM V (List RecoveredTransaction) := do
  let accounts ← reservedAccounts
  let recovered ← recoverAll config (knownIds accounts)
  discardOrphans (knownIds accounts) accounts
  pure recovered

def recoverPending (polls : Nat) : SecretM V (List RecoveredTransaction) := do
  claim config "recovery" true polls
  holding (sweep config)

end Operations

/-! ## What a transaction does -/

/-- A call by the one that drives a transaction, with how long it waits for the lock. -/
inductive TxOp (V : Type) where
  | snapshot (key : CredentialKey) (polls : Nat)
  | put (key : CredentialKey) (secret : V) (polls : Nat)
  | remove (key : CredentialKey) (polls : Nat)
  | commit
  | rollback

def TxOp.run {V : Type} (config : Config V) (id : TransactionId) : TxOp V → SecretM V Unit
  | .snapshot key polls => Secret.snapshot config id key polls
  | .put key secret polls => Secret.put config id key secret polls
  | .remove key polls => do
    let _ ← Secret.remove config id key polls
    pure ()
  | .commit => Secret.commit config id
  | .rollback => Secret.rollback config id

/-! ## What is assumed of the parameters -/

/-- Manifests survive being stored, lock holders are told apart, and a listing has the
accounts in some order. -/
structure Config.Lawful {V : Type} (config : Config V) (order : List String → List String) : Prop where
  manifest : ∀ m, ∃ v, config.encode m = some v ∧ config.decode v = some m
  secret : Function.Injective config.secret
  listed : ∀ accounts, (order accounts).Perm accounts

end GtaClaw.Secret
