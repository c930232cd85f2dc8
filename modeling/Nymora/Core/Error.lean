namespace Nymora.Core

inductive ProtocolError
  | Malformed | Rejected | Unavailable
deriving DecidableEq, Repr

inductive LocalReason
  | UnknownCredential | CredentialRevoked | DuplicateNullifier | ProofInvalid | ThresholdNotMet
  | EpochOutOfRange | PolicyDenied | WrongAgora | FetchKeyStale | Dissolved
deriving DecidableEq, Repr

-- A refusal, with the reason kept for local use only.
structure Rejection where
  reason : Option LocalReason
deriving DecidableEq, Repr

namespace Rejection

-- The source's `opaque`: a refusal with no recorded reason.
def unexplained : Rejection := ⟨none⟩

def because (reason : LocalReason) : Rejection := ⟨some reason⟩

-- `From<Rejection> for ProtocolError`: every reason becomes the same refusal.
def into (_ : Rejection) : ProtocolError := .Rejected

end Rejection

end Nymora.Core
