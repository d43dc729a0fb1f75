import Mathlib.Tactic

/-!
# Envelopes of an ideal authenticated cipher

An ideal cipher decrypts only what was encrypted, at the key, nonce and associated data it was
encrypted with (`decrypt_eq_some_iff`); the `log` is everything encrypted so far. An envelope
encrypts a text with a key of its own and that key with a master key, both over the same associated
data.
-/

namespace Crewquarters

/-- Encryption under a key, a nonce and associated data; no two texts have one ciphertext. -/
structure Aead (β : Type*) where
  encrypt : β → β → β → β → β
  encrypt_injective : ∀ key nonce aad, Function.Injective (encrypt key nonce aad)

/-- One text that was encrypted. -/
structure Encryption (β : Type*) where
  key : β
  nonce : β
  aad : β
  text : β
  deriving DecidableEq

namespace Aead

variable {β : Type*} [DecidableEq β] (C : Aead β)

/-- The text that was encrypted to `ciphertext`, if there is one. -/
def decrypt (log : List (Encryption β)) (key nonce aad ciphertext : β) : Option β :=
  (log.find? fun e =>
    e.key = key ∧ e.nonce = nonce ∧ e.aad = aad ∧ C.encrypt key nonce aad e.text = ciphertext).map
    Encryption.text

variable {C}

theorem decrypt_eq_some_iff {log : List (Encryption β)} {key nonce aad ciphertext text : β} :
    C.decrypt log key nonce aad ciphertext = some text
      ↔ ⟨key, nonce, aad, text⟩ ∈ log ∧ C.encrypt key nonce aad text = ciphertext := by
  constructor
  · intro h
    obtain ⟨e, hfind, rfl⟩ := Option.map_eq_some_iff.mp h
    have hp := List.find?_some hfind
    obtain ⟨rfl, rfl, rfl, htext⟩ := of_decide_eq_true hp
    exact ⟨List.mem_of_find?_eq_some hfind, htext⟩
  · rintro ⟨hmem, rfl⟩
    rw [decrypt]
    rcases hfind : log.find? _ with _ | e
    · have hnone := List.find?_eq_none.mp hfind _ hmem
      simp at hnone
    · have hp := List.find?_some hfind
      obtain ⟨-, -, -, htext⟩ := of_decide_eq_true hp
      -- another text with this ciphertext would be the same one
      rw [Option.map_some, C.encrypt_injective _ _ _ htext]

end Aead

/-- A text encrypted with its own key, and that key encrypted with a master key. -/
structure Envelope (β : Type*) where
  master : β
  wrapNonce : β
  dataKey : β
  nonce : β
  aad : β
  text : β

namespace Envelope

variable {β : Type*}

def encryptions (e : Envelope β) : List (Encryption β) :=
  [⟨e.master, e.wrapNonce, e.aad, e.dataKey⟩, ⟨e.dataKey, e.nonce, e.aad, e.text⟩]

def log (es : List (Envelope β)) : List (Encryption β) := es.flatMap encryptions

/-- The keys drawn for the envelopes are different from each other and from every master key. -/
structure Fresh (masters : Set β) (es : List (Envelope β)) : Prop where
  master : ∀ e ∈ es, e.master ∈ masters
  dataKey : ∀ e ∈ es, e.dataKey ∉ masters
  nodup : (es.map Envelope.dataKey).Nodup

theorem mem_log {es : List (Envelope β)} {s : Encryption β} :
    s ∈ log es ↔ ∃ e ∈ es, s = ⟨e.master, e.wrapNonce, e.aad, e.dataKey⟩
      ∨ s = ⟨e.dataKey, e.nonce, e.aad, e.text⟩ := by
  simp [log, encryptions]

theorem wrapped_mem_log {es : List (Envelope β)} {e : Envelope β} (h : e ∈ es) :
    ⟨e.master, e.wrapNonce, e.aad, e.dataKey⟩ ∈ log es :=
  mem_log.mpr ⟨e, h, .inl rfl⟩

theorem text_mem_log {es : List (Envelope β)} {e : Envelope β} (h : e ∈ es) :
    ⟨e.dataKey, e.nonce, e.aad, e.text⟩ ∈ log es :=
  mem_log.mpr ⟨e, h, .inr rfl⟩

namespace Fresh

variable {masters : Set β} {es : List (Envelope β)}

/-- Under a master key there are only wrapped keys. -/
theorem wrapped_of_mem (h : Fresh masters es) {master nonce aad text : β} (hm : master ∈ masters)
    (hmem : ⟨master, nonce, aad, text⟩ ∈ log es) :
    ∃ e ∈ es, e.master = master ∧ e.wrapNonce = nonce ∧ e.aad = aad ∧ e.dataKey = text := by
  obtain ⟨e, he, heq | heq⟩ := mem_log.mp hmem <;> obtain ⟨rfl, rfl, rfl, rfl⟩ := heq
  · exact ⟨e, he, rfl, rfl, rfl, rfl⟩
  · exact absurd hm (h.dataKey e he)

/-- Under the key of an envelope there is only its text. -/
theorem text_of_mem (h : Fresh masters es) {e : Envelope β} (he : e ∈ es) {nonce aad text : β}
    (hmem : ⟨e.dataKey, nonce, aad, text⟩ ∈ log es) :
    e.nonce = nonce ∧ e.aad = aad ∧ e.text = text := by
  obtain ⟨f, hf, heq | heq⟩ := mem_log.mp hmem <;>
    simp only [Encryption.mk.injEq] at heq <;> obtain ⟨hkey, rfl, rfl, rfl⟩ := heq
  · exact absurd (hkey ▸ h.master f hf) (h.dataKey e he)
  · obtain rfl := List.inj_on_of_nodup_map h.nodup he hf hkey
    exact ⟨rfl, rfl, rfl⟩

/-- A wrapped key that decrypts under a master key, and a text that decrypts with it, are those of
one envelope. -/
theorem opened_together [DecidableEq β] {C : Aead β} (h : Fresh masters es)
    {master wrapNonce aad wrapped dataKey nonce ciphertext text : β} (hm : master ∈ masters)
    (hwrap : C.decrypt (log es) master wrapNonce aad wrapped = some dataKey)
    (htext : C.decrypt (log es) dataKey nonce aad ciphertext = some text) :
    ⟨master, wrapNonce, dataKey, nonce, aad, text⟩ ∈ es
      ∧ C.encrypt master wrapNonce aad dataKey = wrapped
      ∧ C.encrypt dataKey nonce aad text = ciphertext := by
  obtain ⟨hwmem, hwrapped⟩ := Aead.decrypt_eq_some_iff.mp hwrap
  obtain ⟨htmem, hciphertext⟩ := Aead.decrypt_eq_some_iff.mp htext
  obtain ⟨e, he, rfl, rfl, rfl, rfl⟩ := h.wrapped_of_mem hm hwmem
  obtain ⟨rfl, -, rfl⟩ := h.text_of_mem he htmem
  exact ⟨he, hwrapped, hciphertext⟩

end Fresh

end Envelope

end Crewquarters
