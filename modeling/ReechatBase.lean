import ReechatBase.Descriptors
import ReechatBase.EventLoop.Stop
import ReechatBase.EventWatcher.Release
import ReechatBase.EventWatcher.Timeouts
import ReechatBase.Keepalive
import ReechatBase.Lib.BoundedFifo
import ReechatBase.Lib.Cyclic
import ReechatBase.Lib.Endian
import ReechatBase.Lib.RelyGuarantee
import ReechatBase.Libevent.PriorityQueue
import ReechatBase.Libevent.Reactor
import ReechatBase.RingBuffer.Assertions
import ReechatBase.RingBuffer.Capacity
import ReechatBase.RingBuffer.Fifo
import ReechatBase.RingBuffer.Spsc
import ReechatBase.SocketBuffer.ReadFromFD
import ReechatBase.SocketBuffer.Search
import ReechatBase.StringHelper.Stringtok
import ReechatBase.TcpClientTask.Budget
import ReechatBase.TcpClientTask.Stopping
import ReechatBase.TcpClientTask.Verification
import ReechatBase.TcpServerTask.Teardown
import ReechatBase.TcpSocket.AllOrNothing
import ReechatBase.TcpSocket.BackPressure
import ReechatBase.TcpSocket.Closing
import ReechatBase.TcpSocket.EndToEnd
import ReechatBase.TcpSocket.Handover
import ReechatBase.TcpSocket.Ownership
import ReechatBase.TcpSocket.SendData
