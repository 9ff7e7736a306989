import ForgeSync.Forge.Memory
import ForgeSync.Registry

/-!
# The factory of the forge in memory

It serves the endpoints of a scheme of its own.
-/

namespace ForgeSync.Forge.Memory

/-- What the endpoints of the forge in memory begin with. -/
def endpointStart : String := "memory://"

def factory (site : Site) : Factory State :=
  .constant "memory" (·.startsWith endpointStart) (forge site)

end ForgeSync.Forge.Memory
