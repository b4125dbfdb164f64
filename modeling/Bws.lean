import Bws.Protocol.PacketLaws
import Bws.Protocol.Bound
import Bws.Protocol.StatusBuilder
import Bws.Protocol.Discriminants
import Bws.Server.HostileInput
import Bws.Server.Framing
import Bws.GracefulExit.Waits
import Bws.GracefulExit.Guards
import Bws.Server.Run
import Bws.Server.Connections
import Bws.Server.Segmentation
import Bws.Server.LegacyResponse
import Bws.Server.LegacyPayload
import Bws.Protocol.ReadFormat
import Bws.Server.FirstRead
import Bws.Server.HostilePing
import Bws.Server.SessionHash
import Bws.Base.Interleaving
import Bws.Session.Connection
import Bws.Session.Exchange
import Bws.Session.Unwinding
import Bws.Session.BuiltResponse
import Bws.Session.Ending
