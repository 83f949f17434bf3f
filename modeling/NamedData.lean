import NamedData.Face.System
import NamedData.Main
import NamedData.Name.Text
import NamedData.Transport.Backoff
import NamedData.Proofs.Keyed
import NamedData.Proofs.Reassembly.Groups
import NamedData.Proofs.Reassembly.Bounds
import NamedData.Proofs.Reassembly.Sources
import NamedData.Proofs.Reassembly.Isolation
import NamedData.Proofs.Reassembly.Crowding
import NamedData.Proofs.Link.WireForm
import NamedData.Proofs.Link.Division
import NamedData.Proofs.Packet.WireForm
import NamedData.Proofs.Link.Sending
import NamedData.Proofs.Link.Transfer
import NamedData.Proofs.Name.Prefixes
import NamedData.Proofs.Forwarding.Targets
import NamedData.Proofs.Forwarding.Delivery
import NamedData.Proofs.Stream.Framing
import NamedData.Proofs.Stream.Reception
import NamedData.Proofs.System.Faces
import NamedData.Proofs.System.Changes
import NamedData.Proofs.System.Calls
import NamedData.Proofs.System.Journal
import NamedData.Proofs.System.Table
import NamedData.Proofs.System.Answers
import NamedData.Proofs.System.Leaving
import NamedData.Proofs.System.Events
import NamedData.Proofs.Tlv.Shortest
import NamedData.Proofs.Link.RoundTrip
import NamedData.Proofs.Packet.RoundTrip
import NamedData.Proofs.System.Operations
import NamedData.Proofs.System.Destruction
import NamedData.Proofs.Link.Component
import NamedData.Proofs.Link.Bare
import NamedData.Proofs.Packet.Unknown
import NamedData.Proofs.FaceUri.Spelling
import NamedData.Proofs.FaceUri.SocketAddress
import NamedData.Proofs.Transport.Remote
import NamedData.Proofs.Link.LocalFields
import NamedData.Proofs.System.Handovers
import NamedData.Proofs.Link.Overhead
import NamedData.Proofs.Link.Numbering
import NamedData.Proofs.Link.Outgoing
import NamedData.Proofs.Link.Stopping
import NamedData.Proofs.Link.Dropping
import NamedData.Proofs.System.Agreement
import NamedData.Proofs.System.Overtaking
import NamedData.Proofs.System.Remembering
import NamedData.Proofs.Name.WireForm
import NamedData.Proofs.Name.RoundTrip
import NamedData.Proofs.Stream.Headers
import NamedData.Proofs.Link.Listening
import NamedData.Proofs.System.Submission
import NamedData.Proofs.Name.Hashes
import NamedData.Proofs.System.FreeIds
import NamedData.Proofs.Tlv.Numbers
import NamedData.Proofs.Transport.Backoff
