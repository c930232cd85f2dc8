import Nymora.Protocol.Member.Acting

namespace Nymora.Protocol.Member

open Nymora.Core
open Nymora.Crypto
open Nymora.Circuits
open Operator

variable {depth : Nat} [Primitives] {ρ : Type} [DecidableEq ρ] {system : ProofSystem depth}
  {net : Net depth ρ} {moves : List (NetMove system ρ)}

theorem home_run
    (hjoins : ∀ client member, net.clients client = some member → Joins net.server member) :
    ∀ client member, (net.run moves).clients client = some member → Home net.server member := by
  refine kept_run (motive := fun _ => Home net.server) ?_ ?_
  · intro client member hmember
    exact (hjoins client member hmember).home
  · intro client member envelope after hhome hreceive
    exact hhome.receive hreceive

-- After any run, whatever the network did in it: handing a member the current envelope of a live
-- operator is enough for it to follow the operator from its own position, and to be accepted in
-- everything it proves where the operator holds nothing against it.
theorem delivery_equips {founding : Founding} {tagSecret statementEntropy : Bytes 32}
    {logSeed : Option (Bytes 32)} (hpositive : 1 ≤ depth) (hdepth : depth < 64)
    (hopens : Inbox.OpenAfterSeal) (hcorrect : Signature.Correct) (hpoints : Plonk.PointEncoding)
    (hproves : ProvesStanding system)
    (hcreate : AgoraState.create founding tagSecret statementEntropy logSeed = .ok net.server)
    (hjoins : ∀ client member, net.clients client = some member → Joins net.server member)
    (client : ρ) (member : Member depth) (secret : InboxSecretKey) (position : Nat)
    (hmember : (net.run moves).clients client = some member)
    (hlive : (net.run moves).server.dissolved = false)
    (hreaches : Reaches (net.run moves).server member secret position) :
    ∃ after, (net.run (moves ++ [.deliver client (net.run moves).server.envelopeNow])).clients
        client = some after ∧
      Follows after (net.run moves).server ∧ after.position = position ∧
      (Standing (net.run moves).server after → Accepted system (net.run moves).server after) := by
  have hfresh := AgoraState.fresh_of_create hcreate
  have hexecution := net.execution moves
  have hsound := hexecution.sound hfresh.sound
  have hagora := hexecution.agora hfresh.sound
  have hhome := home_run hjoins client member hmember
  obtain ⟨after, hreceive, hfollows, hposition, _⟩ := hreaches.receive hhome hagora
    (hexecution.statementKey hfresh.sound hlive) hsound hlive hpositive hdepth hopens hcorrect
    hpoints
  refine ⟨after, ?_, hfollows, hposition, ?_⟩
  · exact Net.clients_deliver hmember hreceive
  · intro hstanding
    have hready := (ready_run hcorrect hjoins client member hmember).receive hcorrect hreceive
    obtain ⟨witness, roots, hacting, hroots, hstands⟩ :=
      hfollows.stands hready hsound hdepth hstanding
    refine accepted_of_stands hproves ?_ hlive hacting hroots hstands (subjects_run hfresh)
    exact hagora.trans (hhome.receive hreceive).joined.symm

end Nymora.Protocol.Member

namespace Nymora.Protocol.Member.Sample

open Nymora.Crypto
open Nymora.Circuits
open Operator
open Operator.AgoraState (eq_ok_get)
open scoped Nymora.Crypto.Reference

theorem delivery_equips_founder : ∃ after,
    (net.run ([.deliver () operator.envelopeNow] : List (NetMove (StubProver 2) Unit))).clients () =
      some after ∧
      Follows after operator ∧ after.position = 0 ∧ Accepted (StubProver 2) operator equipped := by
  have hequips := delivery_equips (by decide) (by decide) Reference.openAfterSeal
    Reference.signature_correct Plonk.Evaluate.Sample.pointEncoding (provesStanding_stub 2)
    (eq_ok_get founds) joins () founder inboxSecret 0
    (congrArg (fun world : Net 2 Unit => world.clients ()) run_nil)
  have hserver : net.server = operator := rfl
  rw [run_nil, hserver, List.nil_append] at hequips
  obtain ⟨after, hafter, hfollows, hposition, hacts⟩ := hequips operator_live founder_reached
  refine ⟨after, hafter, hfollows, hposition, ?_⟩
  have htaken := Net.clients_deliver (congrArg (fun world : Net 2 Unit => world.clients ()) run_nil)
    founder_equipped
  rw [List.nil_append, hafter, Option.some_inj] at htaken
  rw [htaken] at hacts
  exact hacts equipped_standing

end Nymora.Protocol.Member.Sample
