import ChronoShift.DcNet.Cancellation
import ChronoShift.DcNet.RoundDriver
import ChronoShift.Net.PeerMessage
import ChronoShift.DcNet.RoundDriverCases
import ChronoShift.DcNet.OneShare
import ChronoShift.DcNet.Mesh
import ChronoShift.DcNet.Agreement
import ChronoShift.DcNet.CrossChannel
import ChronoShift.Storage.Wal
import ChronoShift.Storage.TornTail
import ChronoShift.DcNet.F2f
import ChronoShift.DcNet.Social
import ChronoShift.DcNet.Recovery
import ChronoShift.DcNet.Idempotence
import ChronoShift.DcNet.EdgeKeys
import ChronoShift.Lifetime
import ChronoShift.Net.Handshake
import ChronoShift.Pgp.TrustChains
import ChronoShift.DcNet.Anonymity
import ChronoShift.DcNet.Delivery
import ChronoShift.Net.KeyAgreement
import ChronoShift.Net.ResponderAuthentication
import ChronoShift.Net.Displacement
import ChronoShift.Net.RelayQuota
import ChronoShift.Net.RelayNetwork
import ChronoShift.Net.SignedTexts
import ChronoShift.Net.SecureFrames
import ChronoShift.EngineQueue
import ChronoShift.DcNet.QueuedMessage
import ChronoShift.DcNet.Retries
import ChronoShift.EngineAgreement
import ChronoShift.EngineRuns
import ChronoShift.EngineEvents
import ChronoShift.EngineChannels
import ChronoShift.EngineLoss
import ChronoShift.DcNet.Reputation
import ChronoShift.DcNet.Broadcast
import ChronoShift.DcNet.BridgeRuns
import ChronoShift.DcNet.Membership
import ChronoShift.DcNet.LogFailure
import ChronoShift.DcNet.Logging
import ChronoShift.Net.ConnectionReader
import ChronoShift.Net.FirstContact
import ChronoShift.Net.RelayPins
import ChronoShift.DcNet.Network
import ChronoShift.ToMathlib.Runs
import ChronoShift.ToMathlib.HashCount
import ChronoShift.Service
import ChronoShift.DcNet.Masks
import ChronoShift.Pgp.Signers
import ChronoShift.ToMathlib.BreadthFirst
import ChronoShift.Pgp.TrustPath
import ChronoShift.Net.RelayRate
import ChronoShift.DcNet.Initiation
import ChronoShift.Net.RelayForwarding
import ChronoShift.AnnouncedLength
import ChronoShift.DcNet.LocalRound
import ChronoShift.DcNet.TrustLevels
import ChronoShift.Storage.Checkpoint
import ChronoShift.DcNet.Frame
import ChronoShift.Text
import ChronoShift.DcNet.TrustScale
import ChronoShift.HexText
import ChronoShift.DcNet.Eviction
import ChronoShift.ServicePorts
import ChronoShift.DcNet.Shuffle
import ChronoShift.ServiceAccess
import ChronoShift.Ffi
import ChronoShift.Net.Lan
import ChronoShift.Web
import ChronoShift.DcNet.CollectorRuns
import ChronoShift.Pgp.Labels
import ChronoShift.AddressBook
import ChronoShift.IncomingPump
import ChronoShift.Net.ConnectionPipeline
import ChronoShift.Ratchet
import ChronoShift.RatchetSessions
import ChronoShift.Gossip
import ChronoShift.Daemon
import ChronoShift.DcNet.ShuffleReveal
import ChronoShift.Pgp.TrustFile
import ChronoShift.Net.RelayOrigin
import ChronoShift.Net.Socks5
import ChronoShift.DcNet.Standing
import ChronoShift.WebRequest
import ChronoShift.WebConnections
