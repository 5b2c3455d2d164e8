import BaseText.Adapter
import BaseText.Proofs.Adapters
import BaseText.Proofs.Alphabets
import BaseText.Proofs.Bounds
import BaseText.Proofs.Canonical
import BaseText.Proofs.Contract
import BaseText.Proofs.Draining
import BaseText.Proofs.Ends
import BaseText.Proofs.GroupReads
import BaseText.Proofs.IntoBuffers
import BaseText.Proofs.Invariants
import BaseText.Proofs.Joins
import BaseText.Proofs.Locality
import BaseText.Proofs.Logs
import BaseText.Proofs.Panes
import BaseText.Proofs.Rejection
import BaseText.Proofs.Reversal
import BaseText.Proofs.RoundTrip
import BaseText.Proofs.Samples
import BaseText.Proofs.Sessions
import BaseText.Proofs.Sieves
import BaseText.Proofs.Texts
import BaseText.Proofs.Utf8Forms
import BaseText.Proofs.Views
import BaseText.Sample
import BaseText.Stack
import BaseText.Value.Bytes
import BaseText.Value.Options
