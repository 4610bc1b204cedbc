import WireGuardWindows.GoStd.Strings
import WireGuardWindows.GoStd.Unicode
import WireGuardWindows.GoStd.Base64
import WireGuardWindows.GoStd.Netip
import WireGuardWindows.Conf.Config
import WireGuardWindows.Conf.Values
import WireGuardWindows.Conf.Parser
import WireGuardWindows.Conf.Writer
import WireGuardWindows.Conf.Text
import WireGuardWindows.Conf.ReadBack
import WireGuardWindows.Conf.Canonical
import WireGuardWindows.Conf.Accepted
import WireGuardWindows.Conf.RoundTrip
import WireGuardWindows.Conf.Comments
import WireGuardWindows.Filtering.Sublayer
import WireGuardWindows.Firewall.Rules
import WireGuardWindows.Firewall.KillSwitch
import WireGuardWindows.Syntax.Blocking
import WireGuardWindows.Syntax.Lines
import WireGuardWindows.Syntax.Networks
import WireGuardWindows.Syntax.Parsed
import WireGuardWindows.Manager.Ipc
import WireGuardWindows.Manager.Notify
import WireGuardWindows.Manager.Tracker
import WireGuardWindows.Manager.Rpc
import WireGuardWindows.Driver.Layout
import WireGuardWindows.Driver.RoundTrip
import WireGuardWindows.Conf.Uapi
import WireGuardWindows.GoStd.Url
import WireGuardWindows.Conf.UapiReport
import WireGuardWindows.Conf.UapiText
import WireGuardWindows.Ringlogger.Memory
import WireGuardWindows.Ringlogger.Follow
import WireGuardWindows.GoStd.Framing
import WireGuardWindows.GoStd.Sort
import WireGuardWindows.Tunnel.DeterministicGuid
import WireGuardWindows.Updater.Download
import WireGuardWindows.Tunnel.InterfaceWatcher
import WireGuardWindows.Conf.WSTLSNames
import WireGuardWindows.Conf.WSTLS
import WireGuardWindows.Conf.Bearer
import WireGuardWindows.Conf.UrlErrors
import WireGuardWindows.Conf.WSTLSStored
import WireGuardWindows.GoStd.Path
import WireGuardWindows.Ui.Archive
import WireGuardWindows.Syntax.Addresses
import WireGuardWindows.Syntax.Hostnames
import WireGuardWindows.Tunnel.DefaultRoutes
import WireGuardWindows.Conf.WebSocketPeers
import WireGuardWindows.Conf.WSTLSSaved
import WireGuardWindows.Ui.EditDialog
import WireGuardWindows.Conf.Store
import WireGuardWindows.Conf.Runtime
import WireGuardWindows.Syntax.Partition
import WireGuardWindows.Conf.Settings
import WireGuardWindows.Conf.LineOrder
import WireGuardWindows.Conf.StoredConfigs
import WireGuardWindows.Conf.StoreUpdates
import WireGuardWindows.Conf.NameOrder
import WireGuardWindows.Driver.SocketAddresses
import WireGuardWindows.Manager.Requests
import WireGuardWindows.Conf.Intersects
import WireGuardWindows.Tunnel.AddressConfig
import WireGuardWindows.Tunnel.Pitfalls
import WireGuardWindows.Conf.BlankLines
import WireGuardWindows.Manager.FailedRequests
import WireGuardWindows.Conf.Migration
import WireGuardWindows.Tunnel.RouteMonitor
import WireGuardWindows.Tunnel.RouteOwnership
import WireGuardWindows.Tunnel.RouteCoverage
import WireGuardWindows.Tunnel.RouteTraces
import WireGuardWindows.Tunnel.RouteFollow
import WireGuardWindows.Tunnel.RouteEffort
import WireGuardWindows.Tunnel.RouteConvergence
import WireGuardWindows.Winipcfg.ChangeCallbacks
import WireGuardWindows.Manager.DriverAdapters
import WireGuardWindows.Tunnel.MtuMonitor
import WireGuardWindows.Services.Errors
import WireGuardWindows.Tunnel.Service
import WireGuardWindows.Conf.Secrets
import WireGuardWindows.Systems.SideBySide
import WireGuardWindows.Manager.Methods
