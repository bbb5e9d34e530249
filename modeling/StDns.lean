import StDns.Protocol.DomainBounds
import StDns.Protocol.ResponseBounds
import StDns.Protocol.AnswerExact
import StDns.Protocol.Carried
import StDns.Protocol.NameRefused
import StDns.Protocol.RequestExact
import StDns.Server.Exchange
import StDns.Server.FirstQuestion
import StDns.Server.Forward
import StDns.Store.RecordManager
import StDns.Store.KvRace
import StDns.Store.ShmKv
import StDns.Store.Overlap
import StDns.Store.Reverse
import StDns.Store.Transform
import StDns.Server.Apart
import StDns.Server.Provenance
import StDns.Server.SyncRuns
import StDns.Server.SystemCache
import StDns.Server.Select
import StDns.Area.Services
import StDns.Area.Race
import StDns.Console.Client
import StDns.Log.Base64
import StDns.Log.Metrics
import StDns.Client.Areas
import StDns.Client.Buffers
import StDns.Area.Ranges
import StDns.Utils.Ipv4Exact
import StDns.Utils.Ipv4Lists
import StDns.Store.Statistics
import StDns.Store.Order
import StDns.Area.Lookups
import StDns.Task.Rate
