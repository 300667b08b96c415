import Protobuf.Main
import Protobuf.Message.Roundtrip
import Protobuf.Message.Shown
import Protobuf.Proofs.Admission
import Protobuf.Proofs.Derived
import Protobuf.Proofs.Escapes
import Protobuf.Proofs.Extents
import Protobuf.Proofs.Framing
import Protobuf.Proofs.Fresh
import Protobuf.Proofs.Hashing
import Protobuf.Proofs.Invariant
import Protobuf.Proofs.Levels
import Protobuf.Proofs.Lookup
import Protobuf.Proofs.Maps
import Protobuf.Proofs.Omission
import Protobuf.Proofs.Oneofs
import Protobuf.Proofs.Outputs
import Protobuf.Proofs.Prefixes
import Protobuf.Proofs.Scalars
import Protobuf.Proofs.Tags
