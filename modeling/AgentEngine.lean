import AgentEngine.Engine.ModuleOrder
import AgentEngine.Anet.FrameRoundTrip
import AgentEngine.Anet.ConnectionRuns
import AgentEngine.Anet.HttpLimitRuns
import AgentEngine.Anet.HttpRoundTrip
import AgentEngine.Anet.PacketQueueRuns
import AgentEngine.Anet.AllocBufferRefinement
import AgentEngine.Anet.TcpReconnect
import AgentEngine.Anet.TcpAgreement
import AgentEngine.Anet.TransportAccounts
import AgentEngine.Util.ThreadPoolConservation
import AgentEngine.Arpc.RpcServerAgreement
import AgentEngine.Arpc.MessageRoundTrip
import AgentEngine.Arpc.PayloadConsumption
import AgentEngine.Engine.WorkerOptions
import AgentEngine.Util.LinePositions
import AgentEngine.Util.Base64
import AgentEngine.Util.LoopThread
import AgentEngine.Util.StringScans
import AgentEngine.Alog.LoggerOrder
import AgentEngine.Alog.ConfiguratorSafety
import AgentEngine.Alog.AppenderNames
import AgentEngine.Alog.LogHistory
import AgentEngine.Alog.PropertyTexts
import AgentEngine.Alog.FileSizes
import AgentEngine.Json.ParserAgreement
import AgentEngine.Json.RoundTrip
import AgentEngine.Json.Equality
import AgentEngine.Anet.ChannelIdRuns
import AgentEngine.Arpc.PyCompletions
import AgentEngine.Lib.Tickets
import AgentEngine.Util.LockFreePromises
