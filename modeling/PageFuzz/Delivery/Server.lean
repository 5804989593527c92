import PageFuzz.Delivery.Route
import PageFuzz.Replay.Harness
import PageFuzz.Session.Basic

/-!
# The two servers

One server hands out the pages of a session as they are generated, the other the pages of a
replay.  Both listen on the machine's own address only.
-/

namespace PageFuzz.Delivery

/-- where a server listens -/
def listenAddress (port : Nat) : String := "127.0.0.1:" ++ toString port

def generationLabel : String := "generation"
def replayLabel : String := "replay"

section

variable {σ : Type}

/-- the event of a session: its next page -/
def generationEvent (store : Storage σ) (s : Session × σ) :
    Except String ByteArray × (Session × σ) :=
  let result := s.1.generate store s.2
  (match result.1 with
    | .ok artifact => .ok artifact.content.toByteArray
    | .error e => .error e.message, result.2)

/-- a request to the server of a session -/
def serveSession (store : Storage σ) (r : Request) (s : Session × σ) :
    Response × (Session × σ) :=
  respond generationLabel (generationEvent store) r s

end

/-- the event of a replay: its next page -/
def replayEvent (s : Replay.Harness × FileTree) :
    Except String ByteArray × (Replay.Harness × FileTree) :=
  let result := s.1.next s.2
  (match result.1 with
    | .ok page => .ok page.body
    | .error e => .error e.message, result.2)

/-- a request to the server of a replay -/
def serveReplay (r : Request) (s : Replay.Harness × FileTree) :
    Response × (Replay.Harness × FileTree) :=
  respond replayLabel replayEvent r s

end PageFuzz.Delivery
