import Mtasc.Buffer.Bounded
import Mtasc.Buffer.Population
import Mtasc.Client.Budgets
import Mtasc.Client.Chunked
import Mtasc.Client.Delivery
import Mtasc.Client.DeliveryTls
import Mtasc.Client.Descriptors
import Mtasc.Client.Enough
import Mtasc.Client.Failures
import Mtasc.Client.LastRead
import Mtasc.Client.Leftover
import Mtasc.Client.Pooled
import Mtasc.Client.ReadTls
import Mtasc.Client.Resolvers
import Mtasc.Client.RetryTls
import Mtasc.Client.Scans
import Mtasc.Client.Selection
import Mtasc.Client.Successes
import Mtasc.Client.TcpSession
import Mtasc.Client.Transfer
import Mtasc.Client.Transient
import Mtasc.Client.WriteCount
import Mtasc.Client.WriteRetry
import Mtasc.Http.Exchange
import Mtasc.Http.HeaderOrder
import Mtasc.Parser.Agreement
import Mtasc.Parser.Accepted
import Mtasc.Parser.ClientTool
import Mtasc.Parser.NoPath
import Mtasc.Parser.NormalForm
import Mtasc.Parser.RoundTrip
import Mtasc.Parser.Segments
import Mtasc.Parser.Substrings
import Mtasc.Thread.Accounting
import Mtasc.Thread.Destructor
import Mtasc.Thread.Futures
import Mtasc.Thread.Instance
import Mtasc.Thread.Races
import Mtasc.Thread.Spawn
import Mtasc.Thread.Wakeup
import Mtasc.Tls.Stages
import Mtasc.Tls.Verification
import Mtasc.Tls.Write
