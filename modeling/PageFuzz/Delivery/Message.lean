import PageFuzz.Delivery.Route
import PageFuzz.Text.Blank

/-!
# Messages on the wire

A request is read from the first line of its message, a response is written as a head and the
bytes of its body.
-/

namespace PageFuzz.Delivery

/-- the request of a first line: a method, a target and whatever follows them -/
def Request.ofLine? (line : String) : Option Request :=
  match Text.words line.toList with
  | method :: target :: _ => some ⟨String.ofList method, String.ofList target⟩
  | _ => none

/-- the words for a status -/
def reason : Nat → String
  | 200 => "OK"
  | 405 => "Method Not Allowed"
  | _ => "Internal Server Error"

def Response.head (r : Response) : String :=
  "HTTP/1.1 " ++ toString r.status ++ " " ++ reason r.status ++
    "\r\ncontent-type: " ++ r.contentType ++
    "\r\ncontent-length: " ++ toString r.body.size ++ "\r\n\r\n"

def Response.message (r : Response) : ByteArray := r.head.toByteArray ++ r.body

end PageFuzz.Delivery
