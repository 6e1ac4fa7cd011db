import Redp2p.Seats
import Redp2p.Ownership
import Redp2p.Pruning
import Redp2p.Delivery
import Redp2p.Listing
import Redp2p.GracefulClose
import Redp2p.PunchAnswers
import Redp2p.ModeAgreement
import Redp2p.UdpTransparency
import Redp2p.PunchPackets
import Redp2p.Handshake
import Redp2p.Refusals
import Redp2p.HttpFraming
import Redp2p.RunnerStatus
import Redp2p.PhpQueue
import Redp2p.PhpSeats
import Redp2p.PhpRefinement
import Redp2p.LiveSessions
import Redp2p.HttpBodies
import Redp2p.IndexLoop
import Redp2p.CallTokens
import Redp2p.LocalCandidates
import Redp2p.ProofOfWork
import Redp2p.Sha256Standard
import Redp2p.Envelopes
import Redp2p.Stun
import Redp2p.Lib.Tlv
import Redp2p.Lib.SlotTable
import Redp2p.SessionTable
import Redp2p.SessionRefinement
import Redp2p.Lib.Watchdog
import Redp2p.DeadPeers
import Redp2p.KeyFiles
import Redp2p.KeyPersistence
import Redp2p.Deregistration
import Redp2p.Environment
import Redp2p.Lib.Arguments
import Redp2p.Cli
import Redp2p.CliRequests
import Redp2p.CliAddresses
import Redp2p.DownOption
import Redp2p.IndexOptions
import Redp2p.DecimalNumbers
import Redp2p.PeerStorage
import Redp2p.StunBounds
import Redp2p.ConnectionRound
import Redp2p.Lib.Runs
import Redp2p.VipMap
import Redp2p.PhpVips
import Redp2p.PidPaths
import Redp2p.PortSweep
import Redp2p.Lib.FileTree
import Redp2p.PidFiles
import Redp2p.Lib.JsonGrammar
import Redp2p.PhpDuplicates
import Redp2p.KeyScopes
import Redp2p.KcpReliable
import Redp2p.KcpTunnel
import Redp2p.KcpShape
import Redp2p.SessionLife
import Redp2p.KcpClock
import Redp2p.WaitTimes
