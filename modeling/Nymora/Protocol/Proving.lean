import Nymora.Circuits.Statement
import Nymora.Protocol.Credential

namespace Nymora.Protocol

open Nymora.Core
open Nymora.Ports
open Credential
open Method

-- What a member stores that an ordinary proof takes as witness.
structure ActingMaterial where
  credentialKey : CredentialKey
  rootOpening : RootOpening
  epochKey : EpochSecretKey
  rootPublicKey : List UInt8
  epochRecord : EpochRecord

def loadActingMaterial (agora : AgoraId) (epoch : Epoch) (rootPublicKeySize recordSize : Nat) :
    Storing ActingMaterial := do
  let credentialKey ← loadSecret32 agora .CredentialKey
  let rootOpening ← loadSecret32 agora .RootOpening
  let epochKey ← loadSecret32 agora (.EpochKey epoch)
  let rootPublicKey ← expect (← SecureStorage.load agora .RootPublicKey rootPublicKeySize)
    .Unavailable
  let record ← expect (← loadEpochRecord agora epoch recordSize) .Unavailable
  return ⟨.new credentialKey, .new rootOpening, .new epochKey, rootPublicKey, record⟩

-- The full chain witness: the material, and where the member sits in what the operator holds.
def ActingMaterial.witness {depth : Nat} (material : ActingMaterial)
    (leafWitness : Accumulator.Witness depth)
    (revocationAbsence spendAbsence : Accumulator.AbsenceWitness depth) :
    Circuits.ChainWitness depth where
  epochKey := material.epochKey
  epochPublicKey := material.epochRecord.publicKey
  epochCertSignature := material.epochRecord.signature
  credentialKey := material.credentialKey
  rootOpening := material.rootOpening
  rootPublicKey := material.rootPublicKey
  leafWitness := leafWitness
  revocationAbsence := revocationAbsence
  spendAbsence := spendAbsence

end Nymora.Protocol
