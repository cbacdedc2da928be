import Liso.Message.Cbuf
import Liso.Parser.Phases
import Liso.Parser.RoundTrip
import Liso.Parser.Capacities
import Liso.Parser.Language
import Liso.Http.Heads
import Liso.Http.Delivery
import Liso.Http.Streaming
import Liso.Http.HeaderSearch
import Liso.Http.DocumentRoot
import Liso.Http.Environment
import Liso.Http.ContentLength
import Liso.Http.Bounds
import Liso.Server.Framing
import Liso.Server.Streams
import Liso.Server.Order
import Liso.Server.Sharing
import Liso.Server.Slots
import Liso.Server.Closing
import Liso.Server.ChildOutput
import Liso.Server.ChildInput
import Liso.Server.ChildFailure
import Liso.Server.BadRequest
import Liso.Server.Ownership
import Liso.Server.Descriptors
import Liso.Server.Residue
import Liso.Server.Liveness
import Liso.Server.Service
import Liso.Server.Demands
import Liso.Server.Safety
import Liso.Server.Shutdown
import Liso.Server.Leaks
import Liso.Server.Children
