import AnonSecNet.Cache.StoreMap
import AnonSecNet.Client.DeadLegs
import AnonSecNet.Client.DisjointLegs
import AnonSecNet.Client.GuardFiles
import AnonSecNet.Client.IidStriping
import AnonSecNet.Client.Mailbox
import AnonSecNet.Client.SixHops
import AnonSecNet.Evaluation.BenjaminiHochberg
import AnonSecNet.Evaluation.CoverDrop
import AnonSecNet.Evaluation.Disclosure
import AnonSecNet.Evaluation.GuardPolicy
import AnonSecNet.Evaluation.MailboxDispatch
import AnonSecNet.Evaluation.SprtRounds
import AnonSecNet.Evaluation.Suppression
import AnonSecNet.Evaluation.ThresholdBatching
import AnonSecNet.Evaluation.Watermark
import AnonSecNet.Gateway.CutOff
import AnonSecNet.Gateway.Decoding
import AnonSecNet.Gateway.Keystream
import AnonSecNet.Gateway.PutAck
import AnonSecNet.Gateway.Reclaim
import AnonSecNet.Gateway.ReplyOrder
import AnonSecNet.Identity.IdentityFile
import AnonSecNet.Identity.SignedContent
import AnonSecNet.MixNode.ExtendReplay
import AnonSecNet.MixNode.ForwardStream
import AnonSecNet.MixNode.PoolRuns
import AnonSecNet.MixNode.Population
import AnonSecNet.MixNode.Rejection
import AnonSecNet.MixNode.ReleaseOrders
import AnonSecNet.Net.Transfers
import AnonSecNet.NodePool.FairDraws
import AnonSecNet.NodePool.GuardSetFile
import AnonSecNet.PosixCompat
import AnonSecNet.Retrieval.HeartbeatDrain
import AnonSecNet.Retrieval.HeartbeatReply
import AnonSecNet.Retrieval.MailboxGap
import AnonSecNet.Retrieval.Polling
import AnonSecNet.Retrieval.RejectedRequests
import AnonSecNet.Retrieval.RequestFidelity
import AnonSecNet.Retrieval.SetupRetry
import AnonSecNet.Retrieval.SizeBudget
import AnonSecNet.Sender.CoverSlots
import AnonSecNet.Sender.LostResponses
import AnonSecNet.Telescope.Path
import AnonSecNet.Tor.Echo
import AnonSecNet.Tor.LengthSafety
import AnonSecNet.Tor.ManyCircuits
import AnonSecNet.Tor.PacketRoundTrip
