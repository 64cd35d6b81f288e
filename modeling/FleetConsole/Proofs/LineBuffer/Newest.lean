import FleetConsole.Proofs.LineBuffer.Writing

namespace FleetConsole

namespace LineBuffer

variable {σ : Type}

end LineBuffer

end FleetConsole
