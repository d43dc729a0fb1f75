import Crewquarters.Lib.Envelope
import Crewquarters.Lib.JsonText
import Crewquarters.Lib.Table

/-!
# The secret store

`Keyring` of `crewquarters_secret_store`. AES-GCM is an ideal cipher (`Aesgcm`): `log` is what was
encrypted so far, and `encrypt` gets its data key and nonces from outside (`Draw`). The store's
strings are those of Lean, so none of them has a surrogate in it.
-/

namespace Crewquarters

abbrev Bytes := List UInt8

inductive Raised where
  | secretStoreError (message : String)
  /-- AES-GCM: the tag does not match -/
  | invalidTag
  /-- AES-GCM: a key or a nonce of a length it does not take -/
  | valueError
  /-- `struct`: fewer bytes than the header has -/
  | structError
  deriving DecidableEq

def secretFormat : UInt8 := 1
def keyBytes : ℕ := 32
def nonceBytes : ℕ := 12
def tagBytes : ℕ := 16
def headerSize : ℕ := 5
def wrappedBytes : ℕ := keyBytes + tagBytes
def minBlob : ℕ := headerSize + nonceBytes + wrappedBytes + nonceBytes + tagBytes

/-- `_HEADER.pack`: a byte and four bytes, the most significant first. -/
def packHeader (format : UInt8) (version : ℕ) : Bytes :=
  [format, .ofNat (version / 2 ^ 24), .ofNat (version / 2 ^ 16), .ofNat (version / 2 ^ 8),
    .ofNat version]

/-- `_HEADER.unpack_from`. -/
def unpackHeader : Bytes → Except Raised (UInt8 × ℕ)
  | format :: a :: b :: c :: d :: _ =>
    .ok (format, ((a.toNat * 2 ^ 8 + b.toNat) * 2 ^ 8 + c.toNat) * 2 ^ 8 + d.toNat)
  | _ => .error .structError

structure Context where
  items : List (String × String)
  nodup : (items.map Prod.fst).Nodup

/-- `json.dumps` with sorted keys and no blanks. -/
def Context.dumps (context : Context) : List Char :=
  JsonText.object (context.items.mergeSort fun p q => p.1 ≤ q.1)

/-- Two dicts with the same items are the same mapping, whatever order they were put in. -/
def Context.Same (context other : Context) : Prop := context.items.Perm other.items

instance (context other : Context) : Decidable (context.Same other) :=
  inferInstanceAs (Decidable (List.Perm _ _))

def aad (header : Bytes) (context : Context) : Except Raised Bytes :=
  if context.items = [] then
    .error (.secretStoreError "context must identify the provider and owner")
  else .ok (header ++ JsonText.bytes context.dumps)

/-! ## AES-GCM -/

/-- AES-GCM appends a tag to what is otherwise as long as the text. -/
structure Aesgcm extends Aead Bytes where
  length_encrypt : ∀ key nonce aad text,
    (encrypt key nonce aad text).length = text.length + tagBytes

/-- `AESGCM(key).decrypt(nonce, data, aad)`. -/
def Aesgcm.open (C : Aesgcm) (log : List (Encryption Bytes)) (key nonce data aad : Bytes) :
    Except Raised Bytes :=
  if key.length ∉ [16, 24, 32] then .error .valueError
  else if nonce.length < 8 ∨ 128 < nonce.length then .error .valueError
  else
    match C.decrypt log key nonce aad data with
    | none => .error .invalidTag
    | some text => .ok text

/-! ## The keyring -/

/-- The checks of `Keyring.__init__` on one key. -/
def checkKey (version : ℕ) (key : Bytes) : Except Raised Unit :=
  if ¬ (1 ≤ version ∧ version ≤ 0xFFFFFFFF) then
    .error (.secretStoreError s!"key version {version} is out of range")
  else if key.length ≠ keyBytes then
    .error (.secretStoreError s!"key version {version} is not 256 bits")
  else .ok ()

def checkKeys : List (ℕ × Bytes) → Except Raised Unit
  | [] => .ok ()
  | (version, key) :: keys => do
    checkKey version key
    checkKeys keys

structure Keyring where
  keys : List (ℕ × Bytes)
  nodup : (keys.map Prod.fst).Nodup
  nonempty : keys ≠ []
  checked : checkKeys keys = .ok ()

namespace Keyring

def init (keys : List (ℕ × Bytes)) (nodup : (keys.map Prod.fst).Nodup) : Except Raised Keyring :=
  if nonempty : keys = [] then .error (.secretStoreError "keyring is empty")
  else
    match checked : checkKeys keys with
    | .error raised => .error raised
    | .ok () => .ok ⟨keys, nodup, nonempty, checked⟩

def key (keyring : Keyring) (version : ℕ) : Option Bytes :=
  (Table.get Prod.fst version keyring.keys).map Prod.snd

def currentVersion (keyring : Keyring) : ℕ := (keyring.keys.map Prod.fst).max?.getD 0

def currentKey (keyring : Keyring) : Bytes := (keyring.key keyring.currentVersion).getD []

end Keyring

/-- What `encrypt` draws from the system's randomness. -/
structure Draw where
  dataKey : Bytes
  wrapNonce : Bytes
  nonce : Bytes
  dataKey_length : dataKey.length = keyBytes
  wrapNonce_length : wrapNonce.length = nonceBytes
  nonce_length : nonce.length = nonceBytes

namespace Keyring

/-- `Keyring.encrypt`, and what has been encrypted after it. -/
def encrypt (C : Aesgcm) (keyring : Keyring) (draw : Draw) (plaintext : Bytes) (context : Context)
    (log : List (Encryption Bytes)) : Except Raised Bytes × List (Encryption Bytes) :=
  let header := packHeader secretFormat keyring.currentVersion
  match aad header context with
  | .error raised => (.error raised, log)
  | .ok aad =>
    let wrapped := C.encrypt keyring.currentKey draw.wrapNonce aad draw.dataKey
    let ciphertext := C.encrypt draw.dataKey draw.nonce aad plaintext
    (.ok (header ++ (draw.wrapNonce ++ (wrapped ++ (draw.nonce ++ ciphertext)))),
      log ++ [⟨keyring.currentKey, draw.wrapNonce, aad, draw.dataKey⟩,
        ⟨draw.dataKey, draw.nonce, aad, plaintext⟩])

def keyVersion (blob : Bytes) : Except Raised ℕ :=
  if blob.length < minBlob then .error (.secretStoreError "secret blob is truncated")
  else do
    let (format, version) ← unpackHeader blob
    if format ≠ secretFormat then
      .error (.secretStoreError s!"unknown secret format {format}")
    else .ok version

def decrypt (C : Aesgcm) (log : List (Encryption Bytes)) (keyring : Keyring) (blob : Bytes)
    (context : Context) : Except Raised Bytes := do
  let version ← keyVersion blob
  match keyring.key version with
  | none => .error (.secretStoreError s!"key version {version} is not loaded")
  | some master =>
    let header := blob.take headerSize
    let rest := blob.drop headerSize
    let aad ← aad header context
    let wrapNonce := rest.take nonceBytes
    let rest := rest.drop nonceBytes
    let wrapped := rest.take wrappedBytes
    let rest := rest.drop wrappedBytes
    let nonce := rest.take nonceBytes
    let ciphertext := rest.drop nonceBytes
    let opened := do
      let dataKey ← C.open log master wrapNonce wrapped aad
      C.open log dataKey nonce ciphertext aad
    match opened with
    | .error .invalidTag => .error (.secretStoreError "secret failed authentication")
    | opened => opened

end Keyring

/-! ## Calls of `encrypt` -/

/-- One call of `encrypt`. -/
structure SealCall where
  keyring : Keyring
  draw : Draw
  plaintext : Bytes
  context : Context

namespace SealCall

def encrypt (C : Aesgcm) (call : SealCall) (log : List (Encryption Bytes)) :
    Except Raised Bytes × List (Encryption Bytes) :=
  call.keyring.encrypt C call.draw call.plaintext call.context log

/-- What the call returns; what was encrypted before makes no difference to it. -/
def blob (C : Aesgcm) (call : SealCall) : Except Raised Bytes := (call.encrypt C []).1

def log (C : Aesgcm) (calls : List SealCall) : List (Encryption Bytes) :=
  calls.foldl (fun log call => (call.encrypt C log).2) []

end SealCall

end Crewquarters
