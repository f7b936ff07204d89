import Netflow.Lib.Transition
import Netflow.Basic.CStr
import Netflow.Basic.Config
import Netflow.Stream.Basic
import Netflow.Stream.Reuse
import Netflow.Cat2Dog.Ring
import Netflow.Fifo.Basic
import Netflow.Lib.Circle
import Netflow.Links.Basic
import Netflow.Server.Net
import Netflow.Transport.Step
import Netflow.Transport.Delivered
import Netflow.Transport.Places
import Netflow.Lib.Mailroom
import Netflow.Transport.Session
import Netflow.Stream.Push
import Netflow.Transport.Output
import Netflow.Transport.Stale
import Netflow.Basic.Base64
import Netflow.Server.Hook
import Netflow.Server.Iks
import Netflow.Server.Io
import Netflow.Server.Run
import Netflow.Registry.Basic
import Netflow.Registry.Follows
import Netflow.Registry.Sound
import Netflow.Registry.Dangling
import Netflow.Registry.Owner
import Netflow.Registry.Stopping
import Netflow.Registry.Hookers
import Netflow.Registry.Loops
import Netflow.Registry.HookLists
import Netflow.Lib.Follow
import Netflow.Registry.Nodes
import Netflow.Registry.Progress
import Netflow.Registry.Shared
import Netflow.Registry.HookRuns
import Netflow.Transport.Answered
import Netflow.Transport.Leaks
import Netflow.Registry.Moves
import Netflow.Loop.MaxFd
import Netflow.Registry.Threads
import Netflow.Registry.Broadcast
import Netflow.Links.Walk
import Netflow.Loop.Slots
import Netflow.CuteCat.Sender
import Netflow.Cat2Dog.Input
import Netflow.Fifo.Split
import Netflow.Fifo.Workers
import Netflow.Fifo.Alone
import Netflow.Registry.Overrun
import Netflow.Registry.FreeSlots
import Netflow.Basic.Base64Decode
import Netflow.Basic.Decimal
import Netflow.Iksemel.Sax
import Netflow.Iksemel.Stream
import Netflow.Iksemel.Text
import Netflow.CuteCat.Message
import Netflow.CuteCat.Delivery
import Netflow.Basic.Base64Bounds
import Netflow.Stream.Bounds
import Netflow.Stream.Rounds
import Netflow.Nose.Callbacks
import Netflow.Nose.Payload
import Netflow.Nose.Reads
import Netflow.Registry.Names
import Netflow.Transport.FanOut
import Netflow.Cat2Dog.Shutdown
import Netflow.Iksemel.Verbatim
import Netflow.Registry.UserText
import Netflow.Registry.Drained
import Netflow.Registry.LoseNotices
import Netflow.Registry.HookAnswers
import Netflow.Registry.CreateAnswers
import Netflow.Registry.StrCalls
import Netflow.Registry.FilterString
import Netflow.CuteCat.FilterList
import Netflow.Cat2Dog.Split
import Netflow.Registry.Repeated
import Netflow.Registry.Handled
import Netflow.Registry.Decoders
import Netflow.CuteCat.Connect
import Netflow.Lib.Search
import Netflow.CuteCat.Stanza
import Netflow.CuteCat.Print
import Netflow.CuteCat.SnList
import Netflow.Iksemel.Chunks
import Netflow.Iksemel.Stanzas
import Netflow.Iksemel.Markup
import Netflow.CuteCat.Requests
import Netflow.CuteCat.Rows
import Netflow.CuteCat.Answers
import Netflow.Registry.Wording
import Netflow.Transport.Serving
import Netflow.CuteCat.Service
import Netflow.Cat2Dog.Heard
import Netflow.CuteCat.Upstream
import Netflow.Registry.HookSearch
import Netflow.Transport.Answered
