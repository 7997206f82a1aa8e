import Mp2bs.Block.Server
import Mp2bs.Session.Multipath
import Mp2bs.Block.Tokens
import Mp2bs.Fec.Progress
import Mp2bs.Quic.Acknowledge
import Mp2bs.Quic.Connection
import Mp2bs.Session.Accept
import Mp2bs.Mp2session.FecSplit
import Mp2bs.Mp2session.NodeInfo
import Mp2bs.Overlay.Rebuild
import Mp2bs.Overlay.Mesh
import Mp2bs.Validator.Placement
import Mp2bs.Validator.Bookkeeping
import Mp2bs.Validator.CoordInfo
import Mp2bs.Verify.Maintenance
import Mp2bs.Block.Arrival
import Mp2bs.Mp2session.Placement
import Mp2bs.Session.Scheduler
import Mp2bs.Fec.Bounds
import Mp2bs.Fec.LostSymbols
import Mp2bs.Quic.LossDetection
import Mp2bs.Block.Intake
import Mp2bs.Block.RequestSafety
import Mp2bs.Mp2session.ReadLoops
import Mp2bs.Overlay.SearchTrees
import Mp2bs.Session.HelloAck
import Mp2bs.Raptor.Neighbours
import Mp2bs.Block.Redundancy
import Mp2bs.Quic.FrameSorter
import Mp2bs.Peer.AxisDistances
