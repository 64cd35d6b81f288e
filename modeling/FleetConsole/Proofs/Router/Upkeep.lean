import FleetConsole.Proofs.LineBuffer.Newest
import FleetConsole.Proofs.Router.Coherence
import FleetConsole.Proofs.Router.Writers

namespace FleetConsole

namespace Channel

end Channel

namespace Router

end Router

end FleetConsole
