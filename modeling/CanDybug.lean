import CanDybug.Base.Ring
import CanDybug.Base.Words
import CanDybug.Base.Program
import CanDybug.Base.Flow
import CanDybug.Base.Framing
import CanDybug.Queue.Macros
import CanDybug.Queue.Fifo
import CanDybug.Queue.Access
import CanDybug.Base.Monitor
import CanDybug.Frame.Wire
import CanDybug.Frame.Mailbox
import CanDybug.Frame.Request
import CanDybug.Frame.Grammar
import CanDybug.Frame.Receive
import CanDybug.In.Pipe
import CanDybug.In.Lifetime
import CanDybug.In.Retry
import CanDybug.Device.Can
import CanDybug.Device.State
import CanDybug.Device.Handlers
import CanDybug.Device.Run
import CanDybug.Device.Log
import CanDybug.Device.Reports
import CanDybug.Out.Loop
import CanDybug.Out.Space
import CanDybug.Out.Buffer
import CanDybug.Out.Reads
import CanDybug.Out.Move
import CanDybug.Out.RoundTrip
import CanDybug.Out.Stop
import CanDybug.Out.Posting
import CanDybug.Out.Liveness
import CanDybug.Out.Steady
import CanDybug.Out.Blocked
import CanDybug.Out.Inert
import CanDybug.Out.Requests
import CanDybug.Ack.Sequence
import CanDybug.Tx.Balance
import CanDybug.Out.Stream
import CanDybug.Ack.Order
import CanDybug.Tx.Order
import CanDybug.Rx.Fifo
import CanDybug.Frame.Message
import CanDybug.In.Stream
import CanDybug.In.Capacity
import CanDybug.Rx.Host
import CanDybug.Ack.Host
import CanDybug.Base.Similar
import CanDybug.Device.Boards
import CanDybug.Ack.Handled
import CanDybug.Tx.Progress
import CanDybug.In.Drain
