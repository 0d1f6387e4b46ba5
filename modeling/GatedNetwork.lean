import GatedNetwork.Main
import GatedNetwork.Network.Mutate
import GatedNetwork.SortedSet.Lemmas
import GatedNetwork.Proofs.Graph.Reading
import GatedNetwork.Proofs.Graph.Consistent
import GatedNetwork.Proofs.Graph.Edits
import GatedNetwork.Proofs.Graph.Follow
import GatedNetwork.Proofs.Graph.Frame
import GatedNetwork.Proofs.Graph.Joining
import GatedNetwork.Proofs.Graph.Removal
import GatedNetwork.Proofs.Graph.Values
import GatedNetwork.Proofs.Image.Overlong
import GatedNetwork.Proofs.Image.Unpacking
import GatedNetwork.Proofs.Network.Editing
import GatedNetwork.Proofs.Network.Founding
import GatedNetwork.Proofs.Network.Gains
import GatedNetwork.Proofs.Network.Mutating
import GatedNetwork.Proofs.Network.Running
import GatedNetwork.Proofs.Network.Meaning
import GatedNetwork.Proofs.Program.Naming
import GatedNetwork.Proofs.Session.Addressing
import GatedNetwork.Proofs.Session.Basic
import GatedNetwork.Proofs.Session.Blaming
import GatedNetwork.Proofs.Session.Bounded
import GatedNetwork.Proofs.Session.Copies
import GatedNetwork.Proofs.Session.Directed
import GatedNetwork.Proofs.Session.Gains
import GatedNetwork.Proofs.Session.Gating
import GatedNetwork.Proofs.Session.Gluing
import GatedNetwork.Proofs.Session.Indexed
import GatedNetwork.Proofs.Session.Isolating
import GatedNetwork.Proofs.Session.Lessons
import GatedNetwork.Proofs.Session.Memory
import GatedNetwork.Proofs.Session.Merging
import GatedNetwork.Proofs.Session.Modes
import GatedNetwork.Proofs.Session.Mutations
import GatedNetwork.Proofs.Session.Numbering
import GatedNetwork.Proofs.Session.Redrawing
import GatedNetwork.Proofs.Session.Refusals
import GatedNetwork.Proofs.Session.Rejoining
import GatedNetwork.Proofs.Session.Removal
import GatedNetwork.Proofs.Session.Restoring
import GatedNetwork.Proofs.Session.Retaining
import GatedNetwork.Proofs.Session.Rewiring
import GatedNetwork.Proofs.Session.Service
import GatedNetwork.Proofs.Session.Shapes
import GatedNetwork.Proofs.Session.Untouched
import GatedNetwork.Proofs.Snapshot.Canonical
import GatedNetwork.Proofs.Snapshot.Written
