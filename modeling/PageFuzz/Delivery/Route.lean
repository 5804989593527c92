/-!
# Requests and responses

A server has one event, such as the next page of a session.  A `GET` of the root runs it and
answers with its page or with what went wrong; a `GET` of anything else is answered with nothing,
so that a browser which looks for an icon takes no page; any other method is refused.
-/

namespace PageFuzz.Delivery

structure Request where
  method : String
  /-- the target as it was sent, with a query if it has one -/
  target : String
deriving DecidableEq, Repr

structure Response where
  status : Nat
  contentType : String
  body : ByteArray

def htmlType : String := "text/html; charset=utf-8"
def plainType : String := "text/plain; charset=utf-8"

/-- a character that a scheme such as `http` may hold -/
def isSchemeChar (c : Char) : Bool := c.isAlphanum || c == '+' || c == '-' || c == '.'

/-- what follows the scheme and `://` of a target that names them -/
def afterScheme? (target : List Char) : Option (List Char) :=
  match target.dropWhile isSchemeChar with
  | ':' :: '/' :: '/' :: rest => some rest
  | _ => none

/-- a path, without the query and fragment that follow it -/
def pathPart (cs : List Char) : List Char := cs.takeWhile fun c => c != '?' && c != '#'

/-- what follows the host of a target -/
def afterHost (cs : List Char) : List Char := cs.dropWhile fun c => c != '/' && c != '?' && c != '#'

/--
The path of a target.  A target is a path itself or a `*`, or a scheme, a host and a path, which
is `/` if it is left out, or a host alone, whose path is empty.
-/
def pathOf (target : String) : List Char :=
  match target.toList with
  | '/' :: cs => '/' :: pathPart cs
  | ['*'] => ['*']
  | cs =>
    match afterScheme? cs with
    | none => afterHost cs
    | some rest =>
      match pathPart (afterHost rest) with
      | [] => ['/']
      | path => path

/-- the path of a server's root, which need not be written -/
def isRoot (path : List Char) : Bool := path == [] || path == ['/']

inductive Route where
  | event
  | nothing
  | refused
deriving DecidableEq, Repr

def route (r : Request) : Route :=
  if r.method ≠ "GET" then .refused
  else if isRoot (pathOf r.target) then .event
  else .nothing

theorem route_eq_event {r : Request} :
    route r = .event ↔ r.method = "GET" ∧ isRoot (pathOf r.target) := by
  by_cases hm : r.method = "GET" <;> by_cases hp : isRoot (pathOf r.target) <;>
    simp [route, hm, hp]

/-- the answer to the result of an event -/
def answer (label : String) : Except String ByteArray → Response
  | .ok body => ⟨200, htmlType, body⟩
  | .error message => ⟨500, plainType, (label ++ " failed: " ++ message).toByteArray⟩

def emptyPage : Response := ⟨200, htmlType, .empty⟩

def notAllowed : Response := ⟨405, plainType, "HTTP method not allowed".toByteArray⟩

/-- Answer a request, running the event of the server if the request asks for it. -/
def respond {σ : Type} (label : String) (event : σ → Except String ByteArray × σ)
    (r : Request) (s : σ) : Response × σ :=
  match route r with
  | .event => (answer label (event s).1, (event s).2)
  | .nothing => (emptyPage, s)
  | .refused => (notAllowed, s)

end PageFuzz.Delivery
