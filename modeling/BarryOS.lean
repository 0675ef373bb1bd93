import BarryOS.Apps.Su
import BarryOS.Compat.PeInside
import BarryOS.Crypto.ClientHello
import BarryOS.Crypto.SignedBy
import BarryOS.Crypto.TlsBoundaries
import BarryOS.Crypto.TlsData
import BarryOS.Crypto.TlsPadding
import BarryOS.Crypto.TlsRecords
import BarryOS.Crypto.TlsSend
import BarryOS.Fs.DiskfsAny
import BarryOS.Fs.DiskfsCrash
import BarryOS.Fs.DiskfsSaves
import BarryOS.Fs.RamfsSpace
import BarryOS.Mem.FrameCount
import BarryOS.Net.DhcpLease
import BarryOS.Net.DhcpOptions
import BarryOS.Net.DnsAnswer
import BarryOS.Net.DnsForged
import BarryOS.Net.HttpChecked
import BarryOS.Net.HttpComplete
import BarryOS.Net.HttpDeadline
import BarryOS.Net.HttpRoute
import BarryOS.Net.HttpSend
import BarryOS.Net.PacketsVerify
import BarryOS.Net.TcpClose
import BarryOS.Net.TcpWindow
import BarryOS.Proc.Scheduler
import BarryOS.Web.BrowserLoad
import BarryOS.Web.History
import BarryOS.Web.HtmlShape
import BarryOS.Web.Inherit
import BarryOS.Web.Png
import BarryOS.Web.References
