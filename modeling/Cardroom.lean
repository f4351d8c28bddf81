import Cardroom.Http.Router
import Cardroom.Json.Canonical
import Cardroom.Main
import Cardroom.Proofs.Command
import Cardroom.Proofs.Floor.Chips
import Cardroom.Proofs.Floor.Departure
import Cardroom.Proofs.Floor.Failures
import Cardroom.Proofs.Floor.Ledger
import Cardroom.Proofs.Floor.Lifetime
import Cardroom.Proofs.Floor.LobbyView
import Cardroom.Proofs.Floor.Overtaking
import Cardroom.Proofs.Floor.Reception
import Cardroom.Proofs.Floor.Roster
import Cardroom.Proofs.Floor.Streams
import Cardroom.Proofs.Floor.TableFrames
import Cardroom.Proofs.Floor.TableView
import Cardroom.Proofs.Floor.Wording
import Cardroom.Proofs.Frame.RoundTrip
import Cardroom.Proofs.Http.Discretion
import Cardroom.Proofs.Http.TokenRoutes
import Cardroom.Proofs.Limiter.Count
import Cardroom.Proofs.Limiter.Refusals
import Cardroom.Proofs.Limiter.Windows
import Cardroom.Proofs.Server.CountdownStream
import Cardroom.Proofs.Server.Isolation
import Cardroom.Proofs.Server.Schedule
import Cardroom.Proofs.Store.Memberships
import Cardroom.Proofs.Table.Interleaving
import Cardroom.Proofs.Table.Openings
import Cardroom.Proofs.Token.Soundness
import Cardroom.Store.Rooms
