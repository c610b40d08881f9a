import Woodshed.Torn

/-! What a replay makes of a manifest that was written op by op, when any prefix of it is left. -/
namespace Woodshed
open Sequencing Framing

section
variable [Crates]

end

section
attribute [local instance] sample

end
end Woodshed
