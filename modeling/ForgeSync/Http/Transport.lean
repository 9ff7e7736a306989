import ForgeSync.Http.Message

/-!
# Transports

How a request gets to a server and a response back. A request that cannot be sent never reaches
the transport; every other one is answered, or lost on the way.

Two transports are given: one that plays prepared outcomes and records the requests, and one
behind which nobody listens.
-/

namespace ForgeSync.Http

/-- Why no response came. -/
inductive NetworkFault where
  /-- The credential cannot stand in a header. -/
  | badHeader
  /-- The address cannot be called. -/
  | badAddress (url : Url)
  /-- The connection was refused or lost. -/
  | unreachable (url : Url)
  deriving DecidableEq, Inhabited

def NetworkFault.message : NetworkFault → String
  | badHeader => "builder error"
  | badAddress url => "builder error for url (" ++ url.withoutUser.text ++ ")"
  | unreachable url => "error sending request for url (" ++ url.withoutUser.text ++ ")"

/-- A way to a server, over a state `τ`. -/
structure Transport (τ : Type) where
  exchange : Request → StateM τ (Except NetworkFault Response)
  /-- How many requests of one listing may be sent from a state. -/
  patience : τ → Nat

/-- Whether a text may stand in a header. -/
def isHeaderText (s : String) : Bool :=
  s.toList.all fun c => c = '\t' || (0x20 ≤ c.toNat && c.toNat ≠ 0x7F)

/-- Whether an address can be called. -/
def isCallable (url : Url) : Bool :=
  (url.scheme = "http" || url.scheme = "https") && url.host?.isSome

/-- Sends a request, if it can be sent. -/
def Transport.send {τ : Type} (transport : Transport τ) (request : Request) :
    StateM τ (Except NetworkFault Response) :=
  if !isHeaderText request.token then pure (.error .badHeader)
  else if !isCallable request.url then pure (.error (.badAddress request.url))
  else transport.exchange request

/-- A transport behind which nobody listens. -/
def Transport.refusing : Transport Unit where
  exchange request := pure (.error (.unreachable request.url))
  patience _ := 1

/-- A transport that gives the outcome number `n` to the request number `n`. Its state is the
requests so far. -/
def Transport.playing (outcome : Nat → Except NetworkFault Response) (patience : Nat) :
    Transport (List Request) where
  exchange request := fun sent => (outcome sent.length, sent ++ [request])
  patience _ := patience

/-- What the server of a finite script says when the script is used up. -/
def exhausted : Response where
  status := 418
  body := "script exhausted".toUTF8.toList

/-- A transport that plays a finite script. -/
def Transport.ofScript (outcomes : List (Except NetworkFault Response)) :
    Transport (List Request) :=
  .playing (fun n => (outcomes[n]?).getD (.ok exhausted)) (outcomes.length + 1)

end ForgeSync.Http
