import Elogind.Basic.EnvUtil
import Elogind.Basic.EscapeBuffer
import Elogind.Basic.HashmapProbe
import Elogind.Basic.PathRelative
import Elogind.Basic.SetStrjoin
import Elogind.Basic.UidRange
import Elogind.Basic.VersionCompare
import Elogind.Bus.Address
import Elogind.Bus.AppendFailure
import Elogind.Bus.AuthClient
import Elogind.Bus.CallsRun
import Elogind.Bus.Connection
import Elogind.Bus.Cookies
import Elogind.Bus.ParseFields
import Elogind.Bus.PathTemplate
import Elogind.Bus.ReadBody
import Elogind.Bus.SignatureGrammar
import Elogind.Bus.Track
import Elogind.Event.LoopRun
import Elogind.Event.SleepBetween
import Elogind.Json.Build
import Elogind.Json.RoundTrip
import Elogind.Login.Brightness
import Elogind.Login.Button
import Elogind.Login.CgroupPid
import Elogind.Login.CgroupUtil
import Elogind.Login.Collector
import Elogind.Login.Display
import Elogind.Login.EscapedFiles
import Elogind.Login.Idle
import Elogind.Login.MasterDevices
import Elogind.Login.RestorePositions
import Elogind.Login.Schedule
import Elogind.Login.SeatSessions
import Elogind.Login.SeatSwitch
import Elogind.Login.SessionRoundTrip
import Elogind.Login.SetDisplay
import Elogind.Login.ShutdownDelay
import Elogind.Login.UserState
import Elogind.Shared.PolkitSafety
import Elogind.Varlink.Accounting
import Elogind.Varlink.ClientRuns
import Elogind.Varlink.Descriptors
import Elogind.Varlink.Flush
import Elogind.Varlink.IdlResolved
import Elogind.Varlink.Serving
