import Vivarium.Main
import Vivarium.World.Request
import Vivarium.Proofs.Probability
import Vivarium.Proofs.Soundness
import Vivarium.Proofs.Reachability
import Vivarium.Proofs.Codec
import Vivarium.Proofs.Resumption
import Vivarium.Proofs.Schedule
import Vivarium.Proofs.Colours
import Vivarium.Proofs.Relocation
import Vivarium.Proofs.Ring
import Vivarium.Proofs.Loading
import Vivarium.Proofs.Seeding
import Vivarium.Proofs.Replication
import Vivarium.Proofs.Admission
import Vivarium.Proofs.Framing
import Vivarium.Proofs.RecordForms
import Vivarium.Proofs.ByteForm
import Vivarium.Proofs.Chronicle
import Vivarium.Proofs.Attribution
import Vivarium.Proofs.Lineage
import Vivarium.Proofs.Bookkeeping
import Vivarium.Proofs.History
import Vivarium.Proofs.Acts
import Vivarium.Proofs.Effects
import Vivarium.Proofs.Mutation
import Vivarium.Proofs.Frame
import Vivarium.Proofs.Reseeding
import Vivarium.Proofs.Reaping
import Vivarium.Proofs.Runs
import Vivarium.Proofs.Batches
import Vivarium.Proofs.Births
import Vivarium.Proofs.Results
import Vivarium.Proofs.Independence
import Vivarium.Proofs.Faults
import Vivarium.Proofs.Ageing
import Vivarium.Proofs.Packing
import Vivarium.Proofs.ValueSums
import Vivarium.Proofs.Truncation
import Vivarium.Proofs.Legibility
import Vivarium.Proofs.Listings
