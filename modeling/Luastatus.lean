import Luastatus.Lib.Transition
import Luastatus.Lib.Bytes
import Luastatus.Lib.CString
import Luastatus.Lib.Fallible
import Luastatus.Lib.Heap
import Luastatus.Lib.BinarySearch
import Luastatus.Lib.Json
import Luastatus.Lib.Lines
import Luastatus.Lib.Cuts
import Luastatus.Lib.Entities
import Luastatus.Lib.Brackets
import Luastatus.Lib.Join
import Luastatus.Lib.JsonText
import Luastatus.Lib.JsonEvents
import Luastatus.Lib.Multibyte
import Luastatus.Lua.Value
import Luastatus.Lua.Arg
import Luastatus.Lua.Pattern
import Luastatus.Lua.Number
import Luastatus.Lua.Fields
import Luastatus.LibLs.Panic
import Luastatus.LibLs.AllocUtils
import Luastatus.LibLs.ParseInt
import Luastatus.LibLs.Strtou
import Luastatus.LibLs.LsString
import Luastatus.LibLs.Strarr
import Luastatus.LibLs.LsStringArray
import Luastatus.Libsafe.Safev
import Luastatus.Liblrand.Random
import Luastatus.Libsafe.MutSafev
import Luastatus.Lemonbar.MarkupUtils
import Luastatus.Lemonbar.Openers
import Luastatus.Lemonbar.Routing
import Luastatus.Lemonbar.Escape
import Luastatus.Barlib.Display
import Luastatus.Barlib.Texts
import Luastatus.Stdout.Display
import Luastatus.Dwm.Display
import Luastatus.I3.Escape
import Luastatus.I3.Segment
import Luastatus.I3.Output
import Luastatus.I3.Pango
import Luastatus.I3.EventWatcher
import Luastatus.I3.Delivery
import Luastatus.Barlib.Coherence
import Luastatus.Barlib.ArrayReturn
import Luastatus.Lemonbar.Display
import Luastatus.Lemonbar.ArrayReturn
import Luastatus.Barlib.JoinedReturn
import Luastatus.Core.Machine
import Luastatus.Core.Protocol
import Luastatus.Lib.Atomic
import Luastatus.Lua.CallArg
import Luastatus.Core.Communicate
import Luastatus.Core.Atomicity
import Luastatus.Lib.Chain
import Luastatus.Core.MapGet
import Luastatus.Lua.Error
import Luastatus.Dbus.Types
import Luastatus.Dbus.ParseDtype
import Luastatus.Lib.Strtol
import Luastatus.Lib.Decimal
import Luastatus.Dbus.Values
import Luastatus.Dbus.Mkval
import Luastatus.Dbus.Cvt
import Luastatus.Dbus.RoundTrip
import Luastatus.Dbus.Trees
import Luastatus.Dbus.CvtStack
import Luastatus.Dbus.Exact
import Luastatus.Web.JsonDecode
import Luastatus.Web.JsonEncode
import Luastatus.Web.Urlencode
import Luastatus.Web.UrlSizes
import Luastatus.Web.Protocol
import Luastatus.Lib.Assign
import Luastatus.Web.Kinds
import Luastatus.Web.Validation
import Luastatus.Xkb.Wrongly
import Luastatus.Xkb.Pieces
import Luastatus.Xkb.Symbols
import Luastatus.Mpd.Session
import Luastatus.Lib.Calls
import Luastatus.Lib.Resources
import Luastatus.Lib.FdTable
import Luastatus.Core.LifeCycle
import Luastatus.Core.Rules
import Luastatus.Core.WidgetOwnership
import Luastatus.Core.Ownership
import Luastatus.Core.Unloading
import Luastatus.LibLs.EvloopLfuncs
import Luastatus.Timer.Loop
import Luastatus.Multiplex.Conq
import Luastatus.Multiplex.MapRef
import Luastatus.Multiplex.WspecList
import Luastatus.Multiplex.Nested
import Luastatus.Multiplex.NestedProtocol
import Luastatus.Multiplex.Updates
import Luastatus.Unixsock.Server
import Luastatus.Unixsock.Run
import Luastatus.Unixsock.Calls
import Luastatus.Unixsock.Ledger
import Luastatus.NetworkLinux.StrsetRuns
import Luastatus.NetworkLinux.Network
import Luastatus.NetworkLinux.WirelessInfo
import Luastatus.Pipe.ShellEscape
import Luastatus.Pipev2.Lines
import Luastatus.Pipev2.Child
import Luastatus.Pipev2.Signals
import Luastatus.Pipev2.Abstraction
import Luastatus.Pipev2.Launch
import Luastatus.Fs.Strlist
import Luastatus.BatteryLinux.Battery
import Luastatus.NetworkRateLinux.Reader
import Luastatus.CpuUsageLinux.Usage
import Luastatus.Libwidechar.Widechar
import Luastatus.Xtitle.Watch
import Luastatus.Inotify.EventTypes
import Luastatus.Inotify.Loop
import Luastatus.Lib.Replica
import Luastatus.Mpris.Mirror
import Luastatus.Imap.Session
