import HandshakeNode.Brontide

/-!
# The handshake of the encrypted connection

The three acts of Noise_XK, each made by one side (`genActOne`, `genActTwo`, `genActThree`) and taken
in by the other. Both sides mix what they send and receive into a digest and what they agree on into
a chaining key, from which the ciphers of the connection are derived.

secp256k1 and the uniform encoding of its points are parameters (`Curve`). A side whose act fails
gives up, so the state of a failed act is not kept.
-/

namespace HandshakeNode.Brontide

open CipherState

def protocolName : Bytes :=
  "Noise_XK_secp256k1_ChaChaPoly_SHA256+SVDW_Squared".toUTF8.toList

def prologue : Bytes := "hns".toUTF8.toList

def publicKeySize : ℕ := 33
/-- `copy` into `n` zero bytes. -/
def copyInto (n : ℕ) (bs : Bytes) : Bytes := bs.take n ++ List.replicate (n - bs.length) 0

lemma length_copyInto (n : ℕ) (bs : Bytes) : (copyInto n bs).length = n := by
  simp only [copyInto, List.length_append, List.length_take, List.length_replicate]
  omega

structure SymmetricState where
  cipher : CipherState
  chain : Key
  digest : Key
  temp : Key
deriving DecidableEq

namespace SymmetricState
variable (suite : Suite)

def initSymmetric (protocolName : Bytes) : SymmetricState :=
  let digest : Key :=
    if protocolName.length ≤ keySize then ⟨copyInto keySize protocolName, length_copyInto _ _⟩
    else suite.sha256 protocolName
  { cipher := .newCipherState, chain := digest, digest, temp := zeroKey }

variable (s : SymmetricState)

def split (initiator : Bool) : CipherState × CipherState :=
  let (k1, k2) := suite.hkdfExpand [] s.chain.1
  if initiator then
    (newCipherState.initSalt k1 s.chain, newCipherState.initSalt k2 s.chain)
  else
    (newCipherState.initSalt k2 s.chain, newCipherState.initSalt k1 s.chain)

end SymmetricState

/-- secp256k1: private and public keys and the randomness of the encoding. -/
structure Curve (Priv Pub Rand : Type) where
  pubKey : Priv → Pub
  isOnCurve : Pub → Bool
  serializeCompressed : Pub → Bytes
  parsePublicKey : Bytes → Result Pub
  /-- SHA-256 of the compressed shared point. -/
  sharedSecret : Pub → Priv → Key
  publicKeyToHash : Pub → Rand → Result Bytes
  publicKeyFromHash : Bytes → Result Pub

structure HandshakeState (Priv Pub : Type) where
  symmetric : SymmetricState
  initiator : Bool
  localStatic : Priv
  localEphemeral : Option Priv := none
  remoteStatic : Option Pub := none
  remoteEphemeral : Option Pub := none
  sendCipher : Option CipherState := none
  recvCipher : Option CipherState := none

section
variable {Priv Pub Rand : Type} (suite : Suite) (curve : Curve Priv Pub Rand)

def split (hs : HandshakeState Priv Pub) : HandshakeState Priv Pub :=
  let (send, recv) := hs.symmetric.split suite hs.initiator
  { hs with sendCipher := some send, recvCipher := some recv }

end

end HandshakeNode.Brontide
