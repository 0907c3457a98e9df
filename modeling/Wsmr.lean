import Wsmr.Lib.Prog
import Wsmr.Lib.Regex
import Wsmr.Lib.Checks
import Wsmr.Lib.Pool
import Wsmr.Lib.Mutex
import Wsmr.Lib.Ledger
import Wsmr.Lib.UndoLog
import Wsmr.Lib.Text
import Wsmr.Lib.Code
import Wsmr.Lib.Dedup
import Wsmr.Lib.TreeMap
import Wsmr.Lib.Shell
import Wsmr.Lib.ExecLine
import Wsmr.Lib.Search
import Wsmr.Lib.Poll
import Wsmr.Lib.Stateful
import Wsmr.Lib.Fifo
import Wsmr.Lib.Refine
import Wsmr.Error
import Wsmr.Filter
import Wsmr.Varnames
import Wsmr.Env.Files
import Wsmr.Env.Dump
import Wsmr.Env.Delta
import Wsmr.Host
import Wsmr.App.Field
import Wsmr.App.Entry
import Wsmr.App.Locale
import Wsmr.App.Find
import Wsmr.App.Terminal
import Wsmr.App.NegativeCache
import Wsmr.App.Naming
import Wsmr.App.Launch
import Wsmr.App.Daemon
import Wsmr.App.Replies
import Wsmr.App.Exchange
import Wsmr.App.Pieces
import Wsmr.App.Expansion
import Wsmr.App.Scan
import Wsmr.App.Reading
import Wsmr.App.Tokens
import Wsmr.App.Url
import Wsmr.App.Encoding
import Wsmr.App.Spacing
import Wsmr.Comp
import Wsmr.Comp.Resolve
import Wsmr.Comp.Argument
import Wsmr.Comp.BinId
import Wsmr.App.TerminalList
import Wsmr.Main
import Wsmr.Sysd.World
import Wsmr.Sysd.Dbus
import Wsmr.Sysd.Updates
import Wsmr.Session.State
import Wsmr.Session.StateSpec
import Wsmr.Session.Retry
import Wsmr.Session.Accounts
import Wsmr.Session.Recovery
import Wsmr.Session.Process
import Wsmr.Session.Prepare
import Wsmr.Session.Exporters
import Wsmr.Session.Conduct
import Wsmr.Session.Restoration
import Wsmr.Session.Race
import Wsmr.Session.Append
import Wsmr.Units.Escape
import Wsmr.Units.Unescape
import Wsmr.Units.Instance
import Wsmr.Units.Rung
import Wsmr.Units.Manifest
import Wsmr.Units.Templates
import Wsmr.Units.Commands
import Wsmr.Units.Plan
import Wsmr.Units.Generate
import Wsmr.Units.Ownership
import Wsmr.Units.Pristine
import Wsmr.Units.Converge
import Wsmr.Units.Rollback
import Wsmr.Units.Interrupted
import Wsmr.Util.Fsutil
import Wsmr.Session.Start
import Wsmr.Session.Starting
import Wsmr.Session.Anchor
import Wsmr.Session.Stop
import Wsmr.Session.Stopping
import Wsmr.Session.Reresolve
import Wsmr.Session.Watcher
import Wsmr.Session.Readiness
import Wsmr.Session.DesktopNames
import Wsmr.Session.Sourcing
import Wsmr.Session.Check
import Wsmr.Units.Lines
import Wsmr.Units.Quote
import Wsmr.Units.ExecStart
import Wsmr.Units.Rendered
