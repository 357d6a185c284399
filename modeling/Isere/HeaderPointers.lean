-- The header pointers that __handler_cb leaves: num_header_fields is set before
-- the loop, and a row only when its value is of the kind that the runtime takes.
import Isere.Runtimes

open cstring

namespace isere.httpd

/-! ## What the writeback reads -/

end isere.httpd
