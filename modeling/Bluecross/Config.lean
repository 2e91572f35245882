/-
# Bluecross.Config — positions and configurations of the two programs.

A `HashMap` of the source is Mathlib's `AList`: a list of entries with pairwise distinct keys. The
order of the entries has no meaning of its own; where the source iterates over a map, the order is a
parameter of the function that iterates.
-/
import Mathlib.Data.List.AList
import Bluecross.Json

namespace Bluecross

/-- The edge of the server's screen that a client is behind. -/
inductive ScreenPosition where
  | left
  | right
  | top
  | bottom
  deriving DecidableEq, Repr

namespace ScreenPosition

/-- The position a file or an ack names. -/
def fromStr : String → Option ScreenPosition
  | "left" => some .left
  | "right" => some .right
  | "top" => some .top
  | "bottom" => some .bottom
  | _ => none

/-- The name of a position, as an ack carries it. -/
def asStr : ScreenPosition → String
  | .left => "left"
  | .right => "right"
  | .top => "top"
  | .bottom => "bottom"

end ScreenPosition

/-- What the server runs with. -/
structure ServerConfig where
  host : String
  port : UInt16
  screenWidth : Int32
  screenHeight : Int32
  /-- How far from an edge the cursor may be to be at it. -/
  edgeThreshold : Int32
  clipboardSharing : Bool
  /-- The passphrase, without white space around it. -/
  psk : String
  /-- The names that may connect, and where they are. -/
  clients : AList fun _ : String => ScreenPosition

/-- What a client runs with. -/
structure ClientConfig where
  serverHost : String
  serverPort : UInt16
  screenWidth : Int32
  screenHeight : Int32
  name : String
  clipboardSharing : Bool
  psk : String

/-- Both dimensions are positive, which is what `resolve_dimensions` lets through. -/
def ServerConfig.Sized (config : ServerConfig) : Prop :=
  0 < config.screenWidth ∧ 0 < config.screenHeight

end Bluecross
