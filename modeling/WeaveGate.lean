import WeaveGate.Proxy.Theorems.Balancer
import WeaveGate.Proxy.Theorems.Forwarded
import WeaveGate.Proxy.Theorems.Tunnels
import WeaveGate.Proxy.Theorems.Upstream
import WeaveGate.Routes.Theorems
import WeaveGate.Routes.Theorems.Agreement
import WeaveGate.Routes.Theorems.BootstrapUri
import WeaveGate.Routes.Theorems.Snapshot
import WeaveGate.Static.Theorems.Access
import WeaveGate.Static.Theorems.Archive
import WeaveGate.Static.Theorems.ArchiveTree
import WeaveGate.Static.Theorems.ArchiveLoops
import WeaveGate.Static.Theorems.ChannelBuffer
import WeaveGate.Static.Theorems.AutoIndex
import WeaveGate.Static.Theorems.Links
import WeaveGate.Static.Theorems.MemCache
import WeaveGate.Static.Theorems.Permit
import WeaveGate.Static.Theorems.Dates
import WeaveGate.Static.Theorems.Ranges
import WeaveGate.Static.Theorems.Redirect
import WeaveGate.Static.Theorems.Variants
import WeaveGate.Handler.Theorems
import WeaveGate.Handler.Theorems.Compression
import WeaveGate.Handler.Theorems.Auth
import WeaveGate.Handler.Theorems.Cors
import WeaveGate.Handler.Theorems.CustomHeaders
import WeaveGate.Handler.Theorems.Inflight
import WeaveGate.Handler.Theorems.Markdown
import WeaveGate.Handler.Theorems.Preference
import WeaveGate.Handler.Theorems.TextCharset
import WeaveGate.Handler.Theorems.Vary
import WeaveGate.Static.Theorems.Formats
import WeaveGate.Static.Theorems.Hidden
import WeaveGate.Settings.Theorems.Patterns
import WeaveGate.Server.Theorems.HttpsRedirect
import WeaveGate.Server.Theorems.Signals
import WeaveGate.Handler.Theorems.Captures
import WeaveGate.Handler.Theorems.Head
import WeaveGate.Handler.Theorems.Hosts
import WeaveGate.Handler.Theorems.Rewrites
import WeaveGate.Proxy.Theorems.Compiled
import WeaveGate.Proxy.Theorems.Selection
import WeaveGate.Static.Lemmas.IndexSearch
import WeaveGate.Static.Theorems.IndexFiles
import WeaveGate.Static.Theorems.Sanitize
import WeaveGate.Static.Theorems.Streams
import WeaveGate.Handler.Balance
import WeaveGate.Handler.CorsConfig
import WeaveGate.Handler.LogAddr
import WeaveGate.Handler.Metrics
import WeaveGate.Handler.Theorems.Balance
import WeaveGate.Handler.Theorems.CorsConfig
import WeaveGate.Handler.Theorems.LogAddr
import WeaveGate.Handler.Theorems.Metrics
import WeaveGate.Handler.Theorems.Varying
import WeaveGate.Handler.Theorems.VirtualHosts
import WeaveGate.Lib.Html
import WeaveGate.Lib.Posix.Lemmas.Below
import WeaveGate.Proxy.Client
import WeaveGate.Proxy.Theorems.Client
import WeaveGate.Server.Start
import WeaveGate.Server.Theorems.Forwarding
import WeaveGate.Server.Theorems.Wait
import WeaveGate.Static.IndexPage
import WeaveGate.Static.Lemmas.Below
import WeaveGate.Static.Lemmas.Served
import WeaveGate.Static.Theorems.Downloads
import WeaveGate.Static.Theorems.IndexPage
import WeaveGate.Static.Theorems.ListedFiles
import WeaveGate.Static.Theorems.SharedCache
