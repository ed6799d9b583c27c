import Quorate.Policy.Form
import Quorate.Proposal.Draft
import Quorate.Proposal.Form
import Quorate.Rehearsal.Family
import Quorate.Rehearsal.Session
import Quorate.Settings.Document
import Quorate.Settings.Form
import Quorate.Proofs.Merkle.Inclusion
import Quorate.Proofs.Outcome
import Quorate.Proofs.Proposal.Numbering
import Quorate.Proofs.Commitment.Leaves
import Quorate.Proofs.Ceremony.Committed
import Quorate.Proofs.Proposal.Validity
import Quorate.Proofs.Ceremony.Readiness
import Quorate.Proofs.Ceremony.Contract
import Quorate.Proofs.Ceremony.Order
import Quorate.Proofs.Ceremony.Checks
import Quorate.Proofs.Policy.Repeats
import Quorate.Proofs.Policy.Unguarded
import Quorate.Proofs.Ceremony.Unsigned
import Quorate.Proofs.Policy.Reordering
import Quorate.Proofs.Policy.Coalition
import Quorate.Proofs.Ceremony.Agreement
import Quorate.Proofs.Merkle.Pairs
import Quorate.Proofs.Merkle.Soundness
import Quorate.Proofs.Merkle.Multiplicity
import Quorate.Proofs.Commitment.Binding
import Quorate.Proofs.Proposal.Ranks
import Quorate.Proofs.Proposal.Drafting
import Quorate.Proofs.Ceremony.Interleaving
import Quorate.Proofs.Policy.Monotone
import Quorate.Proofs.Ceremony.Gains
import Quorate.Proofs.Ceremony.Course
import Quorate.Proofs.Sorting
import Quorate.Proofs.Ceremony.Arrival
import Quorate.Proofs.Ceremony.Lasting
import Quorate.Proofs.Family.Wiring
import Quorate.Proofs.Settings.RoundTrip
import Quorate.Proofs.Proposal.RoundTrip
import Quorate.Proofs.Proposal.Reordered
import Quorate.Proofs.Commitment.Signing
import Quorate.Proofs.Merkle.Completeness
import Quorate.Proofs.Ceremony.Verdict
import Quorate.Proofs.Ceremony.Keyholders
import Quorate.Proofs.Policy.Validity
import Quorate.Proofs.Proposal.Nonces
import Quorate.Proofs.Ceremony.BySigner
import Quorate.Proofs.Ceremony.Sending
import Quorate.Proofs.Ceremony.Starting
import Quorate.Proofs.HexDigits
import Quorate.Proofs.Address.Spelling
import Quorate.Proofs.Address.Checksum
import Quorate.Proofs.Digest.Numeral
import Quorate.Proofs.Policy.RoundTrip
import Quorate.Proofs.Settings.Keys
import Quorate.Proofs.Merkle.Rounds
import Quorate.Proofs.Ceremony.Expiry
