import Skynet.TimerRefinement
import Skynet.NodeExclusion
import Skynet.SocketClose
import Skynet.SocketStream
import Skynet.ServiceReplies
import Skynet.ClusterQueue
import Skynet.CtrlCmdPipe
import Skynet.ServiceQueue
import Skynet.SocketChannelOrder
import Skynet.MsgserverConnections
import Skynet.DnsCache
import Skynet.HttpLimit
import Skynet.HttpResponse
import Skynet.ClusterAgent
import Skynet.ClusterChannel
import Skynet.SocketRead
import Skynet.ShareDataLookup
import Skynet.DhExchange
import Skynet.Stm
import Skynet.GateServer
import Skynet.ServiceMgr
import Skynet.NetpackWsReassembly
import Skynet.HandleRegistry
import Skynet.SocketPool
import Skynet.NetpackWsBounds
import Skynet.WebSocketLimit
import Skynet.PrivateQueue
import Skynet.NodeLifetime
import Skynet.ShareDataRefs
import Skynet.RedisKeySlot
import Skynet.RedisResponse
import Skynet.SocketHelper
import Skynet.HttpForm
import Skynet.MongoAuth
import Skynet.HexCodec
