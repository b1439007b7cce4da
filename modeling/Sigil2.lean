import Sigil2.Basic
import Sigil2.AddrSet
import Sigil2.AddrSetCanonical
import Sigil2.CommEdges
import Sigil2.ShadowMemory
import Sigil2.STEvent
import Sigil2.ThreadContext
import Sigil2.ThreadContextSpec
import Sigil2.ThreadRuns
import Sigil2.CapnLogger
import Sigil2.Routing
import Sigil2.Barriers
import Sigil2.Delivery
import Sigil2.Markers
import Sigil2.EventHandlers
import Sigil2.Trace
import Sigil2.CapnFiles
import Sigil2.Dispatcher
import Sigil2.Loads
import Sigil2.Communication
import Sigil2.Halts
import Sigil2.Instances
import Sigil2.EventManager
import Sigil2.EventSession
import Sigil2.Options
import Sigil2.Process
