import Crewquarters.SecretStore
import Crewquarters.Lib.Outcome

/-!
# Sealed secrets open only in place

What `encrypt` binds is the header and the context, as bytes from which both can be told
(`aad_inj`), and a blob can be cut in one way only (`BlobParts.cut_join`). So a blob that decrypts
is the blob of one call, sealed in this context, and gives the text of that call; on anything else
`decrypt` raises `SecretStoreError`, and never another error (`raises_or_sealed`).
-/

namespace Crewquarters

open List Option

variable {version : ℕ} {context : Context} {call : SealCall} {b : Bytes}

theorem unpackHeader_packHeader (h : version ≤ 0xFFFFFFFF) (format : UInt8) (rest : Bytes) :
    unpackHeader (packHeader format version ++ rest) = .ok (format, version) := by
  simp only [packHeader, cons_append, nil_append, unpackHeader, UInt8.toNat_ofNat',
    Except.ok.injEq, Prod.mk.injEq, true_and]
  omega

theorem unpackHeader_ok (h : headerSize ≤ b.length) : ∃ r, unpackHeader b = .ok r := by
  rcases b with _ | ⟨format, _ | ⟨x, _ | ⟨y, _ | ⟨z, _ | ⟨w, rest⟩⟩⟩⟩⟩
  case cons.cons.cons.cons.cons => exact ⟨_, rfl⟩
  all_goals exact absurd h (by simp [headerSize])

theorem packHeader_length (format : UInt8) (version : ℕ) :
    (packHeader format version).length = headerSize := rfl

namespace Context

variable {context other : Context}

theorem eq_of_fst {p q : String × String} (hp : p ∈ context.items) (hq : q ∈ context.items)
    (h : p.1 = q.1) : p = q :=
  inj_on_of_nodup_map context.nodup hp hq h

theorem dumps_eq_iff : context.dumps = other.dumps ↔ context.Same other := by
  let le (p q : String × String) : Bool := p.1 ≤ q.1
  have hperm (c : Context) : (c.items.mergeSort le).Perm c.items := mergeSort_perm ..
  have htrans (p q r : String × String) (hpq : le p q) (hqr : le q r) : le p r :=
    decide_eq_true (String.le_trans (of_decide_eq_true hpq) (of_decide_eq_true hqr))
  have htotal (p q : String × String) : (le p q || le q p) := by
    simpa only [le, Bool.or_eq_true, decide_eq_true_eq] using String.le_total p.1 q.1
  have hsorted (c : Context) : (c.items.mergeSort le).Pairwise fun p q => le p q :=
    pairwise_mergeSort htrans htotal _
  constructor
  · intro h
    have hlist : context.items.mergeSort le = other.items.mergeSort le := JsonText.object_inj h
    exact (hperm context).symm.trans (hlist ▸ hperm other)
  · intro h
    refine congrArg JsonText.object (List.Perm.eq_of_pairwise ?_ (hsorted context)
      (hsorted other) (((hperm context).trans h).trans (hperm other).symm))
    intro p q hp hq hpq hqp
    have hfst : p.1 = q.1 := String.le_antisymm (of_decide_eq_true hpq) (of_decide_eq_true hqp)
    exact eq_of_fst ((hperm context).mem_iff.mp hp)
      (h.mem_iff.mpr ((hperm other).mem_iff.mp hq)) hfst

end Context

theorem aad_eq_ok {header a : Bytes} :
    aad header context = .ok a
      ↔ context.items ≠ [] ∧ a = header ++ JsonText.bytes context.dumps := by
  unfold aad
  split_ifs with h <;> simp [h, eq_comm]

theorem aad_inj {header header' a : Bytes} {context other : Context}
    (hlength : header.length = header'.length) (h : aad header context = .ok a)
    (h' : aad header' other = .ok a) : header = header' ∧ context.Same other := by
  obtain ⟨-, rfl⟩ := aad_eq_ok.mp h
  obtain ⟨-, heq⟩ := aad_eq_ok.mp h'
  obtain ⟨hheader, hdumps⟩ := append_inj heq hlength
  exact ⟨hheader, Context.dumps_eq_iff.mp (JsonText.bytes_inj (JsonText.object_ascii _)
    (JsonText.object_ascii _) hdumps)⟩

theorem aad_same {header : Bytes} {context other : Context} (h : context.Same other) :
    aad header context = aad header other := by
  have hnil : context.items = [] ↔ other.items = [] := by
    rw [← length_eq_zero_iff, ← length_eq_zero_iff, h.length_eq]
  simp only [aad, hnil, Context.dumps_eq_iff.mpr h]

theorem checkKey_eq_ok {key : Bytes} :
    checkKey version key = .ok ()
      ↔ (1 ≤ version ∧ version ≤ 0xFFFFFFFF) ∧ key.length = keyBytes := by
  unfold checkKey
  split_ifs with hrange hlength
  · simp [hrange, hlength]
  · simpa [hrange] using hlength
  · simp [hrange]

theorem checkKeys_eq_ok {keys : List (ℕ × Bytes)} :
    checkKeys keys = .ok ()
      ↔ ∀ p ∈ keys, (1 ≤ p.1 ∧ p.1 ≤ 0xFFFFFFFF) ∧ p.2.length = keyBytes := by
  induction keys with
  | nil => simp [checkKeys]
  | cons p keys ih =>
    rw [forall_mem_cons, ← ih, ← checkKey_eq_ok, checkKeys]
    rcases checkKey p.1 p.2 with e | ⟨⟨⟩⟩ <;> simp [bind, Except.bind]

namespace Keyring

variable {keyring : Keyring}

theorem mem_of_key {key : Bytes} (h : keyring.key version = some key) :
    (version, key) ∈ keyring.keys := by
  obtain ⟨p, hget, rfl⟩ := map_eq_some_iff.mp h
  obtain rfl := Table.get_key hget
  exact Table.get_mem hget

theorem key_length {key : Bytes} (h : keyring.key version = some key) : key.length = keyBytes :=
  (checkKeys_eq_ok.mp keyring.checked _ (mem_of_key h)).2

theorem currentVersion_mem (keyring : Keyring) :
    keyring.currentVersion ∈ keyring.keys.map Prod.fst := by
  rcases hmax : (keyring.keys.map Prod.fst).max? with _ | v
  · simp [keyring.nonempty] at hmax
  · rw [currentVersion, hmax]
    exact max?_mem hmax

theorem key_currentVersion (keyring : Keyring) :
    keyring.key keyring.currentVersion = some keyring.currentKey := by
  rcases hget : Table.get Prod.fst keyring.currentVersion keyring.keys with _ | p
  · obtain ⟨p, hp, hfst⟩ := mem_map.mp keyring.currentVersion_mem
    exact absurd hfst (Table.get_eq_none.mp hget p hp)
  · simp [currentKey, key, hget]

theorem currentVersion_le (keyring : Keyring) : keyring.currentVersion ≤ 0xFFFFFFFF := by
  obtain ⟨p, hp, hfst⟩ := mem_map.mp keyring.currentVersion_mem
  exact hfst ▸ (checkKeys_eq_ok.mp keyring.checked p hp).1.2

end Keyring

/-- The fields of a blob. -/
structure BlobParts where
  header : Bytes
  wrapNonce : Bytes
  wrapped : Bytes
  nonce : Bytes
  ciphertext : Bytes

namespace BlobParts

def join (p : BlobParts) : Bytes :=
  p.header ++ (p.wrapNonce ++ (p.wrapped ++ (p.nonce ++ p.ciphertext)))

/-- The slices `decrypt` takes. -/
def cut (b : Bytes) : BlobParts where
  header := b.take headerSize
  wrapNonce := (b.drop headerSize).take nonceBytes
  wrapped := ((b.drop headerSize).drop nonceBytes).take wrappedBytes
  nonce := (((b.drop headerSize).drop nonceBytes).drop wrappedBytes).take nonceBytes
  ciphertext := (((b.drop headerSize).drop nonceBytes).drop wrappedBytes).drop nonceBytes

/-- The parts before the ciphertext have the lengths they are cut at. -/
structure Fits (p : BlobParts) : Prop where
  header : p.header.length = headerSize
  wrapNonce : p.wrapNonce.length = nonceBytes
  wrapped : p.wrapped.length = wrappedBytes
  nonce : p.nonce.length = nonceBytes

theorem join_cut (b : Bytes) : (cut b).join = b := by
  simp only [join, cut, take_append_drop]

theorem cut_join {p : BlobParts} (h : p.Fits) : cut p.join = p := by
  simp only [cut, join, take_left' h.header, drop_left' h.header,
    take_left' h.wrapNonce, drop_left' h.wrapNonce, take_left' h.wrapped,
    drop_left' h.wrapped, take_left' h.nonce, drop_left' h.nonce]

theorem cut_fits (h : minBlob ≤ b.length) : (cut b).Fits := by
  simp only [minBlob, headerSize, nonceBytes, wrappedBytes, keyBytes, tagBytes] at h
  constructor <;>
    simp only [cut, headerSize, nonceBytes, wrappedBytes, keyBytes, tagBytes, length_take,
      length_drop] <;> omega

end BlobParts

namespace SealCall

variable {C : Aesgcm}

def header (call : SealCall) : Bytes := packHeader secretFormat call.keyring.currentVersion

def envelopeOver (call : SealCall) (a : Bytes) : Envelope Bytes :=
  ⟨call.keyring.currentKey, call.draw.wrapNonce, call.draw.dataKey, call.draw.nonce, a,
    call.plaintext⟩

def envelope (call : SealCall) : Option (Envelope Bytes) :=
  (aad call.header call.context).toOption.map call.envelopeOver

/-- The master keys in use, and no data key is drawn that is one of them or was drawn before. -/
structure Fresh (masters : Set Bytes) (calls : List SealCall) : Prop where
  master : ∀ call ∈ calls, ∀ p ∈ call.keyring.keys, p.2 ∈ masters
  dataKey : ∀ call ∈ calls, call.draw.dataKey ∉ masters
  nodup : (calls.map fun call => call.draw.dataKey).Nodup

theorem envelope_eq_some {e : Envelope Bytes} :
    call.envelope = some e
      ↔ ∃ a, aad call.header call.context = .ok a ∧ e = call.envelopeOver a := by
  rcases h : aad call.header call.context with _ | a <;>
    simp [envelope, h, Except.toOption, eq_comm]

theorem encrypt_log (call : SealCall) (log : List (Encryption Bytes)) :
    (call.encrypt C log).2 = log ++ Envelope.log call.envelope.toList := by
  rcases h : aad call.header call.context with _ | a <;>
    simp only [header] at h <;>
    simp [encrypt, Keyring.encrypt, envelope, header, h, Except.toOption, Envelope.log,
      Envelope.encryptions, envelopeOver]

theorem log_eq (calls : List SealCall) :
    log C calls = Envelope.log (calls.filterMap envelope) := by
  suffices h : ∀ start, calls.foldl (fun log call => (call.encrypt C log).2) start
      = start ++ Envelope.log (calls.filterMap envelope) from h []
  induction calls with
  | nil => simp [Envelope.log]
  | cons call calls ih =>
    intro start
    rw [foldl_cons, encrypt_log, ih, append_assoc, filterMap_cons]
    rcases call.envelope with _ | e <;> simp [Envelope.log]

theorem Fresh.envelopes {masters : Set Bytes} {calls : List SealCall} (h : Fresh masters calls) :
    Envelope.Fresh masters (calls.filterMap envelope) where
  master e he := by
    obtain ⟨call, hcall, hsome⟩ := mem_filterMap.mp he
    obtain ⟨a, -, rfl⟩ := envelope_eq_some.mp hsome
    exact h.master call hcall _ (Keyring.mem_of_key call.keyring.key_currentVersion)
  dataKey e he := by
    obtain ⟨call, hcall, hsome⟩ := mem_filterMap.mp he
    obtain ⟨a, -, rfl⟩ := envelope_eq_some.mp hsome
    exact h.dataKey call hcall
  nodup := by
    refine List.Nodup.sublist ?_ h.nodup
    clear h
    induction calls with
    | nil => simp
    | cons call calls ih =>
      rw [filterMap_cons]
      rcases hcall : call.envelope with _ | e
      · exact ih.cons _
      · obtain ⟨a, -, rfl⟩ := envelope_eq_some.mp hcall
        exact ih.cons_cons _

def parts (C : Aesgcm) (call : SealCall) (a : Bytes) : BlobParts where
  header := call.header
  wrapNonce := call.draw.wrapNonce
  wrapped := C.encrypt call.keyring.currentKey call.draw.wrapNonce a call.draw.dataKey
  nonce := call.draw.nonce
  ciphertext := C.encrypt call.draw.dataKey call.draw.nonce a call.plaintext

theorem parts_fits (call : SealCall) (a : Bytes) : (call.parts C a).Fits where
  header := packHeader_length ..
  wrapNonce := call.draw.wrapNonce_length
  wrapped := by rw [parts, C.length_encrypt, call.draw.dataKey_length]; rfl
  nonce := call.draw.nonce_length

theorem minBlob_le_join (call : SealCall) (a : Bytes) :
    minBlob ≤ (call.parts C a).join.length := by
  have hfits := call.parts_fits (C := C) a
  have htext : (call.parts C a).ciphertext.length = call.plaintext.length + tagBytes :=
    C.length_encrypt ..
  simp only [BlobParts.join, length_append, hfits.header, hfits.wrapNonce, hfits.wrapped,
    hfits.nonce, htext, minBlob]
  omega

theorem blob_eq_ok :
    call.blob C = .ok b
      ↔ ∃ a, aad call.header call.context = .ok a ∧ b = (call.parts C a).join := by
  rcases h : aad call.header call.context with _ | a <;>
    simp only [header] at h <;>
    simp [blob, encrypt, Keyring.encrypt, parts, BlobParts.join, header, h, eq_comm]

end SealCall

theorem Aesgcm.open_eq (C : Aesgcm) (log : List (Encryption Bytes)) {key nonce : Bytes}
    (hkey : key.length = keyBytes) (hnonce : nonce.length = nonceBytes) (data a : Bytes) :
    C.open log key nonce data a
      = (C.decrypt log key nonce a data).elim (.error .invalidTag) .ok := by
  unfold Aesgcm.open
  rw [if_neg (by rw [hkey]; decide), if_neg (by rw [hnonce]; decide)]
  cases C.decrypt log key nonce a data <;> rfl

namespace Keyring

variable {C : Aesgcm} {log : List (Encryption Bytes)} {keyring : Keyring} {b : Bytes}
  {context : Context}

theorem keyVersion_error {raised : Raised} (h : keyVersion b = .error raised) :
    ∃ message, raised = .secretStoreError message := by
  unfold keyVersion at h
  split_ifs at h with hlength
  · cases h
    exact ⟨_, rfl⟩
  · obtain ⟨r, hr⟩ := unpackHeader_ok (le_trans (by decide) (not_lt.mp hlength))
    simp only [hr, bind, Except.bind] at h
    split_ifs at h
    cases h
    exact ⟨_, rfl⟩

theorem minBlob_le_of_keyVersion (h : keyVersion b = .ok version) : minBlob ≤ b.length := by
  unfold keyVersion at h
  exact not_lt.mp (ite_error_eq_ok.mp h).1

theorem keyVersion_parts (call : SealCall) (a : Bytes) :
    keyVersion (call.parts C a).join = .ok call.keyring.currentVersion := by
  unfold keyVersion
  rw [if_neg (not_lt.mpr (call.minBlob_le_join a)), BlobParts.join]
  simp only [SealCall.parts, SealCall.header,
    unpackHeader_packHeader call.keyring.currentVersion_le, bind, Except.bind]
  rfl

/-- Either `decrypt` raises `SecretStoreError` before it opens anything, or it has a key and the
associated data. -/
theorem raises_or_reaches (C : Aesgcm) (log : List (Encryption Bytes)) (keyring : Keyring)
    (b : Bytes) (context : Context) :
    (∃ message, keyring.decrypt C log b context = .error (.secretStoreError message))
      ∨ ∃ version master a, keyVersion b = .ok version ∧ keyring.key version = some master
        ∧ aad (BlobParts.cut b).header context = .ok a := by
  unfold decrypt
  rcases hversion : keyVersion b with raised | version
  · obtain ⟨message, rfl⟩ := keyVersion_error hversion
    exact .inl ⟨message, rfl⟩
  rcases hkey : keyring.key version with _ | master
  · exact .inl ⟨_, by simp only [bind, Except.bind, hkey]; rfl⟩
  by_cases hnil : context.items = []
  · have haad (header : Bytes) : aad header context
        = .error (.secretStoreError "context must identify the provider and owner") :=
      if_pos hnil
    exact .inl ⟨_, by simp only [bind, Except.bind, hkey, haad]; rfl⟩
  · exact .inr ⟨version, master, _, rfl, hkey, if_neg hnil⟩

theorem decrypt_eq {master a : Bytes} (hversion : keyVersion b = .ok version)
    (hkey : keyring.key version = some master)
    (haad : aad (BlobParts.cut b).header context = .ok a)
    (hdata : ∀ dataKey, C.decrypt log master (BlobParts.cut b).wrapNonce a
      (BlobParts.cut b).wrapped = some dataKey → dataKey.length = keyBytes) :
    keyring.decrypt C log b context
      = ((C.decrypt log master (BlobParts.cut b).wrapNonce a (BlobParts.cut b).wrapped).bind
        fun dataKey => C.decrypt log dataKey (BlobParts.cut b).nonce a
          (BlobParts.cut b).ciphertext).elim
        (.error (.secretStoreError "secret failed authentication")) .ok := by
  have hfits := BlobParts.cut_fits (minBlob_le_of_keyVersion hversion)
  have hwrap := C.open_eq log (key_length hkey) hfits.wrapNonce
    (BlobParts.cut b).wrapped a
  simp only [BlobParts.cut] at *
  unfold decrypt
  simp only [hversion, hkey, haad, hwrap, bind, Except.bind]
  rcases hopen : C.decrypt log master _ a _ with _ | dataKey
  · rfl
  · simp only [elim_some, bind_some,
      C.open_eq log (hdata _ hopen) hfits.nonce]
    cases C.decrypt log dataKey _ a _ <;> rfl

end Keyring

namespace SealCall

variable {C : Aesgcm} {masters : Set Bytes} {calls : List SealCall}

theorem decrypt_blob {keyring : Keyring} (hcall : call ∈ calls) (hblob : call.blob C = .ok b)
    (hkey : keyring.key call.keyring.currentVersion = some call.keyring.currentKey)
    (hsame : context.Same call.context) :
    keyring.decrypt C (log C calls) b context = .ok call.plaintext := by
  obtain ⟨a, haad, rfl⟩ := blob_eq_ok.mp hblob
  have hcut := BlobParts.cut_join (call.parts_fits (C := C) a)
  have hmem : call.envelopeOver a ∈ calls.filterMap envelope :=
    mem_filterMap.mpr ⟨call, hcall, envelope_eq_some.mpr ⟨a, haad, rfl⟩⟩
  have hwrap : C.decrypt (log C calls) call.keyring.currentKey call.draw.wrapNonce a
      (call.parts C a).wrapped = some call.draw.dataKey := by
    rw [log_eq]
    exact Aead.decrypt_eq_some_iff.mpr ⟨Envelope.wrapped_mem_log hmem, rfl⟩
  have htext : C.decrypt (log C calls) call.draw.dataKey call.draw.nonce a
      (call.parts C a).ciphertext = some call.plaintext := by
    rw [log_eq]
    exact Aead.decrypt_eq_some_iff.mpr ⟨Envelope.text_mem_log hmem, rfl⟩
  rw [Keyring.decrypt_eq (Keyring.keyVersion_parts call a) hkey
    (by rw [hcut, aad_same hsame]; exact haad)
    (fun dataKey hdata => by
      rw [hcut] at hdata
      obtain rfl := some.inj (hwrap.symm.trans hdata)
      exact call.draw.dataKey_length), hcut]
  have hwrap' : C.decrypt (log C calls) call.keyring.currentKey (call.parts C a).wrapNonce a
      (call.parts C a).wrapped = some call.draw.dataKey := hwrap
  rw [hwrap', bind_some]
  exact congrArg (Option.elim · _ _) htext

theorem Fresh.dataKey_length (hfresh : Fresh masters calls) {master nonce a wrapped dataKey : Bytes}
    (hmaster : master ∈ masters)
    (h : C.decrypt (log C calls) master nonce a wrapped = some dataKey) :
    dataKey.length = keyBytes := by
  rw [log_eq] at h
  obtain ⟨e, he, -, -, -, rfl⟩ :=
    hfresh.envelopes.wrapped_of_mem hmaster (Aead.decrypt_eq_some_iff.mp h).1
  obtain ⟨call, -, hsome⟩ := mem_filterMap.mp he
  obtain ⟨-, -, rfl⟩ := envelope_eq_some.mp hsome
  exact call.draw.dataKey_length

theorem Fresh.call_of_opened (hfresh : Fresh masters calls) {p : BlobParts} (hp : p.Fits)
    {a master dataKey text : Bytes} (haad : aad p.header context = .ok a)
    (hmaster : master ∈ masters)
    (hwrap : C.decrypt (log C calls) master p.wrapNonce a p.wrapped = some dataKey)
    (htext : C.decrypt (log C calls) dataKey p.nonce a p.ciphertext = some text) :
    ∃ call ∈ calls, call.blob C = .ok p.join ∧ call.context.Same context
      ∧ call.plaintext = text := by
  rw [log_eq] at hwrap htext
  obtain ⟨hmem, hwrapped, hciphertext⟩ := hfresh.envelopes.opened_together hmaster hwrap htext
  obtain ⟨call, hcall, hsome⟩ := mem_filterMap.mp hmem
  obtain ⟨a', haad', henvelope⟩ := envelope_eq_some.mp hsome
  simp only [envelopeOver, Envelope.mk.injEq] at henvelope
  obtain ⟨rfl, hwrapNonce, rfl, hnonce, rfl, rfl⟩ := henvelope
  -- equal associated data mean an equal header, so all five parts are those of the call
  obtain ⟨hheader, hsame⟩ := aad_inj (hp.header ▸ packHeader_length ..) haad' haad
  have hparts : call.parts C a = p := by
    rw [parts, hheader, ← hwrapNonce, ← hnonce, hwrapped, hciphertext]
  exact ⟨call, hcall, blob_eq_ok.mpr ⟨a, haad', by rw [hparts]⟩, hsame, rfl⟩

/-- What `decrypt` returns was sealed, in these bytes and this context; otherwise it raises
`SecretStoreError`. -/
theorem raises_or_sealed (hfresh : Fresh masters calls) {keyring : Keyring}
    (hkeyring : ∀ p ∈ keyring.keys, p.2 ∈ masters) (b : Bytes) (context : Context) :
    (∃ message, keyring.decrypt C (log C calls) b context = .error (.secretStoreError message))
      ∨ ∃ call ∈ calls, call.blob C = .ok b ∧ call.context.Same context
        ∧ keyring.decrypt C (log C calls) b context = .ok call.plaintext := by
  rcases Keyring.raises_or_reaches C (log C calls) keyring b context with
    hraise | ⟨version, master, a, hversion, hkey, haad⟩
  · exact .inl hraise
  have hmaster : master ∈ masters := hkeyring _ (Keyring.mem_of_key hkey)
  have heq := Keyring.decrypt_eq (C := C) hversion hkey haad
    fun _ => hfresh.dataKey_length hmaster
  rcases hopened : (C.decrypt (log C calls) master (BlobParts.cut b).wrapNonce a
    (BlobParts.cut b).wrapped).bind fun dataKey => C.decrypt (log C calls) dataKey
      (BlobParts.cut b).nonce a (BlobParts.cut b).ciphertext with _ | text
  · exact .inl ⟨_, by rw [heq, hopened]; rfl⟩
  · obtain ⟨dataKey, hwrap, htext⟩ := bind_eq_some_iff.mp hopened
    obtain ⟨call, hcall, hblob, hsame, rfl⟩ := hfresh.call_of_opened
      (BlobParts.cut_fits (Keyring.minBlob_le_of_keyVersion hversion)) haad hmaster hwrap htext
    rw [BlobParts.join_cut] at hblob
    exact .inr ⟨call, hcall, hblob, hsame, by rw [heq, hopened]; rfl⟩

end SealCall

/-- What was sealed opens in its context as long as its key is there, and whatever was not sealed
in a context does not open in it. -/
theorem sealed_open_only_in_place (C : Aesgcm) (masters : Set Bytes) (calls : List SealCall)
    (hfresh : SealCall.Fresh masters calls) :
    (∀ call ∈ calls, call.context.items ≠ [] → ∃ blob, call.blob C = .ok blob ∧
      ∀ (keyring : Keyring) (context : Context),
        keyring.key call.keyring.currentVersion
          = call.keyring.key call.keyring.currentVersion →
        context.Same call.context →
        keyring.decrypt C (SealCall.log C calls) blob context = .ok call.plaintext) ∧
    ∀ (keyring : Keyring), (∀ p ∈ keyring.keys, p.2 ∈ masters) →
      ∀ (blob : Bytes) (context : Context),
        (∀ call ∈ calls, call.context.Same context → call.blob C ≠ .ok blob) →
        ∃ message, keyring.decrypt C (SealCall.log C calls) blob context
          = .error (.secretStoreError message) := by
  constructor
  · intro call hcall hcontext
    obtain ⟨a, haad⟩ : ∃ a, aad call.header call.context = .ok a := ⟨_, if_neg hcontext⟩
    have hblob : call.blob C = .ok (call.parts C a).join :=
      SealCall.blob_eq_ok.mpr ⟨a, haad, rfl⟩
    refine ⟨_, hblob, fun keyring context hkey hsame => ?_⟩
    rw [Keyring.key_currentVersion] at hkey
    exact SealCall.decrypt_blob hcall hblob hkey hsame
  · intro keyring hkeyring blob context hnot
    rcases SealCall.raises_or_sealed hfresh hkeyring blob context with
      hraise | ⟨call, hcall, hblob, hsame, -⟩
    · exact hraise
    · exact absurd hblob (hnot call hcall hsame)

/-- A cipher that hides nothing; it has the lengths, and no two texts in one. -/
def paddedCipher : Aesgcm where
  encrypt _ _ _ text := text ++ List.replicate tagBytes 0
  encrypt_injective _ _ _ := append_left_injective _
  length_encrypt _ _ _ text := by simp

def firstKeyring : Keyring where
  keys := [(1, .replicate 32 1)]
  nodup := by decide
  nonempty := by decide
  checked := by decide

def rotatedKeyring : Keyring where
  keys := [(1, .replicate 32 1), (2, .replicate 32 2)]
  nodup := by decide
  nonempty := by decide
  checked := by decide

def googleContext : Context := ⟨[("provider", "google"), ("owner", "user:7")], by decide⟩
def twilioContext : Context := ⟨[("provider", "twilio"), ("owner", "user:7")], by decide⟩

def sealGoogle : SealCall where
  keyring := firstKeyring
  draw := ⟨.replicate 32 3, .replicate 12 0, .replicate 12 0, by decide, by decide, by decide⟩
  plaintext := [42]
  context := googleContext

theorem sealed_open_only_in_place_rotated :
    ∃ blob, sealGoogle.blob paddedCipher = .ok blob ∧
      rotatedKeyring.decrypt paddedCipher (SealCall.log paddedCipher [sealGoogle]) blob
        googleContext = .ok [42] ∧
      ∃ message, rotatedKeyring.decrypt paddedCipher (SealCall.log paddedCipher [sealGoogle]) blob
        twilioContext = .error (.secretStoreError message) := by
  have hfresh : SealCall.Fresh {.replicate 32 1, .replicate 32 2} [sealGoogle] := by
    refine ⟨?_, ?_, by simp⟩
    · simp [sealGoogle, firstKeyring]
    · simp only [mem_singleton, forall_eq, Set.mem_insert_iff, Set.mem_singleton_iff]
      decide
  obtain ⟨hopens, hraises⟩ := sealed_open_only_in_place paddedCipher _ [sealGoogle] hfresh
  obtain ⟨blob, hblob, hopen⟩ := hopens sealGoogle (by simp) (by decide)
  refine ⟨blob, hblob, hopen rotatedKeyring googleContext (by decide) (by decide), ?_⟩
  refine hraises rotatedKeyring (by simp [rotatedKeyring]) blob twilioContext ?_
  simp only [mem_singleton, forall_eq]
  intro hsame
  exact absurd hsame (by decide)

end Crewquarters
