import EchoFrame.SKBufferFifo
import EchoFrame.ServerTermination
import EchoFrame.ServerFraming
import EchoFrame.TcpWriteQueue
import EchoFrame.ChannelTable
import EchoFrame.SessionCorrelation
import EchoFrame.ConnectionIsolation
import EchoFrame.SessionCallbacks
import EchoFrame.ConfigReconcile
import EchoFrame.TcpSendStream
import EchoFrame.ReadToEnd
import EchoFrame.MalformedFrames
import EchoFrame.AbsentPayload
import EchoFrame.ClientFraming
import EchoFrame.MagicCodec
import EchoFrame.ServerAnswers
import EchoFrame.ClientReconnect
import EchoFrame.ClientUids
import EchoFrame.UdpReads
import EchoFrame.UdpDatagrams
import EchoFrame.UdpIsolation
import EchoFrame.UdpWriteQueue
import EchoFrame.ReconnectBuffers
import EchoFrame.SendTasks
import EchoFrame.ChannelClose
import EchoFrame.SessionTable
import EchoFrame.LoopTasks
import EchoFrame.ThreadPool
import EchoFrame.TimeoutMap
import EchoFrame.FilterChain
import EchoFrame.ServantLoops
import EchoFrame.ClientSelector
import EchoFrame.IdleChannels
import EchoFrame.LoopWait
import EchoFrame.TimeoutExpiry
import EchoFrame.TimeoutRandom
import EchoFrame.FailedReads
import EchoFrame.TypedValues
import EchoFrame.XmlVisit
import EchoFrame.CheckedCasts
import EchoFrame.TrimLoops
import EchoFrame.ReplaceLoop
import EchoFrame.SplitLoop
import EchoFrame.EndpointText
import EchoFrame.DemoCommands
import EchoFrame.RouteAnswers
import EchoFrame.PropertyTree
import EchoFrame.PropertyArrays
import EchoFrame.ThreadQueue
import EchoFrame.PoolLife
import EchoFrame.Exchange
import EchoFrame.DemoCalls
import EchoFrame.Heartbeats
import EchoFrame.KeepAlive
import EchoFrame.Watchers
import EchoFrame.UdpExchange
import EchoFrame.LoopShutdown
import EchoFrame.ServerRegistration
import EchoFrame.TimeoutStore
import EchoFrame.QueuedAnswers
import EchoFrame.PooledServant
import EchoFrame.ChannelBuffers
import EchoFrame.ManagerShutdown
import EchoFrame.ConfigValues
import EchoFrame.CallSystem
import EchoFrame.CallOutcomes
import EchoFrame.CallSending
import EchoFrame.CallDelivery
