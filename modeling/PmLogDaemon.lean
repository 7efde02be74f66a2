import PmLogDaemon.Util.CString
import PmLogDaemon.Util.Number
import PmLogDaemon.Util.Size
import PmLogDaemon.Util.Buffer
import PmLogDaemon.Util.Literal
import PmLogDaemon.Util.Printf
import PmLogDaemon.Util.KeyValue
import PmLogDaemon.Config.Basic
import PmLogDaemon.Config.Rule
import PmLogDaemon.Config.Token
import PmLogDaemon.Config.Read
import PmLogDaemon.Config.WellFormed
import PmLogDaemon.Config.Outputs
import PmLogDaemon.Config.Contexts
import PmLogDaemon.Config.Groups
import PmLogDaemon.Config.Frame
import PmLogDaemon.Config.Session
import PmLogDaemon.Config.Load
import PmLogDaemon.Config.Stale
import PmLogDaemon.Process.Lock
import PmLogDaemon.Process.Mutex
