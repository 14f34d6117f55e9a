import VenueLink.Config.Basic
import VenueLink.Toml.Reader

/-!
# Configuration files
-/

namespace VenueLink.ServiceConfig

/-- The settings in a configuration file. -/
def ofText? (text : String) : Option ServiceConfig := do
  let d ← Toml.read? text
  (reading d).toOption

end VenueLink.ServiceConfig
