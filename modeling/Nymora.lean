import Nymora.Lib.Bytes
import Nymora.Lib.Gaps
import Nymora.Lib.Merkle
import Nymora.Lib.Method
import Nymora.Lib.Runs
import Nymora.Core.Digest
import Nymora.Core.Bundle.Theorems
import Nymora.Core.Handoff.Theorems
import Nymora.Core.Invitation.Theorems
import Nymora.Core.Domain
import Nymora.Core.Epoch
import Nymora.Core.Error
import Nymora.Crypto.Field
import Nymora.Crypto.Poseidon.Hash
import Nymora.Crypto.Credential
import Nymora.Crypto.Inbox
import Nymora.Crypto.Hash.Backend
import Nymora.Crypto.Armor.Theorems
import Nymora.Accumulator.Tree.Paths
import Nymora.Accumulator.Exclusion.Completeness
import Nymora.Accumulator.Exclusion.Ordering
import Nymora.Plonk.Gadgets
import Nymora.Plonk.Evaluate.Theorems
import Nymora.Plonk.Tree.Theorems
import Nymora.Plonk.Exclusion.Theorems
import Nymora.Circuits.FieldDerivation
import Nymora.Circuits.Stub.Binding
import Nymora.Circuits.Stub.Lineage
import Nymora.Proofs.Action
import Nymora.Protocol.Bulletin
import Nymora.Protocol.Decision
import Nymora.Protocol.Operator.Run.Migration
import Nymora.Protocol.Operator.Run.Revocation
import Nymora.Protocol.Operator.Run.Governance
import Nymora.Protocol.Operator.Run.Subjects
import Nymora.Protocol.Operator.Run.Permanence
import Nymora.Protocol.Operator.Run.Promise
import Nymora.Protocol.Operator.Run.Placement
import Nymora.Protocol.Operator.Run.Arrival
import Nymora.Protocol.Operator.Run.Replay
import Nymora.Protocol.Operator.Run.Refusal
import Nymora.Protocol.Operator.Run.Attestation
import Nymora.Protocol.Operator.Run.Capability
import Nymora.Protocol.Operator.Run.Sealing
import Nymora.Protocol.Operator.Run.Snapshots
import Nymora.Protocol.Operator.Run.Publication
import Nymora.Protocol.Operator.Run.Dissolution
import Nymora.Protocol.Operator.Log.Audit
import Nymora.Protocol.Operator.Envelope.Layout
import Nymora.Protocol.Operator.Envelope.Statement
import Nymora.Protocol.Operator.Query
import Nymora.Protocol.Operator.Run.Delivery
import Nymora.Protocol.Operator.Run.Intake
import Nymora.Protocol.Credential.Creation
import Nymora.Protocol.Credential.Pairing
import Nymora.Protocol.LiveAuth.Theorems
import Nymora.Plonk.Relation.Backend
import Nymora.Protocol.Member.Delivery
import Nymora.Protocol.Proving.Migration
