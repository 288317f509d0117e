/-!
# Line ends

Text files may end their lines with a line feed, a carriage return, or both in this order.  A file is
read with every line end turned into a line feed.
-/

namespace Ipld.Text

/-- Turns every line end into a line feed. -/
def universalNewlines : List Char → List Char
  | [] => []
  | '\r' :: '\n' :: rest => '\n' :: universalNewlines rest
  | '\r' :: rest => '\n' :: universalNewlines rest
  | c :: rest => c :: universalNewlines rest

end Ipld.Text
