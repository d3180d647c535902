import Onnxcraft.Properties.Ownership
import Onnxcraft.Properties.Liveness
import Onnxcraft.Properties.Gate
import Onnxcraft.Properties.References
import Onnxcraft.Properties.Closing
import Onnxcraft.Properties.Entry
import Onnxcraft.Properties.Binding
import Onnxcraft.Properties.Cancellation
import Onnxcraft.Properties.Counts
import Onnxcraft.Properties.Loading
import Onnxcraft.Properties.NativeErrors
import Onnxcraft.Properties.Pool
import Onnxcraft.Properties.Isolation
import Onnxcraft.Properties.Settings
import Onnxcraft.Properties.Agreement
import Onnxcraft.Protocol.Sound
import Onnxcraft.Properties.Linear
import Onnxcraft.Properties.Closed
import Onnxcraft.Properties.Ledger
