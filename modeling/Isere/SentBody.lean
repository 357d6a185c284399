-- The body of a response on the wire: what the writeback sends of it, and what a
-- client reads up to the close of the connection.
import Isere.HeaderPointers

open cstring crlf

namespace isere.httpd

/-! ## Headers that have a text -/

end isere.httpd
