/-
# Bluecross.Client — the client's session loop.

`ClientState` is the source's, and a `Client` puts the injector and the clipboard of its main loop
beside it. The loop takes messages in batches: one `recv` and every `try_recv` that succeeds after it.
`applyMessage` acts on one of them and returns the motion it carries; the motion of a whole batch is
summed and used once, at the end of the batch, either to hand control back or to move the pointer.

Readings of the clock are parameters: one for each message, which only `SwitchToClient` looks at, and
the three that `check_exit_edge` takes.
-/
import Bluecross.Clipboard
import Bluecross.Config
import Bluecross.InputInject
import Bluecross.Protocol

namespace Bluecross

/-- What a client keeps besides its devices and its clipboard. -/
structure ClientState where
  config : ClientConfig
  position : Option ScreenPosition
  serverWidth : Int32
  serverHeight : Int32
  active : Bool
  mouseX : Int32
  mouseY : Int32
  switchTime : Instant
  edgePushStart : Instant
  edgePushing : Bool

/-- The readings of the clock in `check_exit_edge`, in the order it takes them: for the grace period,
for the start of a push, and for its length. -/
structure ExitClock where
  grace : Instant
  start : Instant
  push : Instant

namespace ClientState

/-- Before the ack; the two instants are those of the two calls of `Instant::now`. -/
def new (config : ClientConfig) (now₁ now₂ : Instant) : ClientState where
  config := config
  position := none
  serverWidth := 1920
  serverHeight := 1080
  active := false
  mouseX := 0
  mouseY := 0
  switchTime := now₁
  edgePushStart := now₂
  edgePushing := false

/-- The fields a `HandshakeAck` sets. -/
def acknowledged (s : ClientState) (ack : Message) : ClientState :=
  { s with
    position := ((ack.payload.get "position").bind Value.asStr).bind ScreenPosition.fromStr
    serverWidth := (ack.payload.i64Or "server_width" 1920).toInt32
    serverHeight := (ack.payload.i64Or "server_height" 1080).toInt32 }

/-- Whether the pointer is at the edge towards the server, pushes outward, and moves inward. -/
def edgeTest (position : ScreenPosition) (w h x y dx dy : Int32) : Bool × Bool × Bool :=
  match position with
  | .left => (x ≥ w - 1, dx > 0, dx < 0)
  | .right => (x ≤ 0, dx < 0, dx > 0)
  | .top => (y ≥ h - 1, dy > 0, dy < 0)
  | .bottom => (y ≤ 0, dy < 0, dy > 0)

/-- Whether the pointer has been pushed into the exit edge for long enough. -/
def checkExitEdge (clock : ExitClock) (s : ClientState) (x y dx dy : Int32) :
    Bool × ClientState :=
  match s.position with
  | none => (false, s)
  | some position =>
      -- the grace period after a switch
      if Instant.durationSince clock.grace s.switchTime < Duration.fromMillis 200 then (false, s)
      else
        let (atEdge, pushingExit, movingAway) :=
          edgeTest position s.config.screenWidth s.config.screenHeight x y dx dy
        if atEdge ∧ pushingExit then
          let s := if s.edgePushing then s
            else { s with edgePushStart := clock.start, edgePushing := true }
          let elapsed := Instant.durationSince clock.push s.edgePushStart
          if elapsed ≥ Duration.fromMillis 300 then (true, { s with edgePushing := false })
          else (false, s)
        else if movingAway ∨ ¬ atEdge then (false, { s with edgePushing := false })
        -- at the edge and stationary: the timer keeps running
        else (false, s)

end ClientState

/-- What the main loop of a client owns. -/
structure Client where
  state : ClientState
  injector : InputInjector
  clipboard : ClipboardManager

/-- Messages with the readings of the clock when they are applied, and the clock at the end. -/
structure Batch where
  first : Message × Instant
  rest : List (Message × Instant)
  exit : ExitClock

/-- The messages of a batch, in the order they were received. -/
def Batch.messages (b : Batch) : List Message := b.first.1 :: b.rest.map Prod.fst

namespace Client

/-- The `SwitchToClient` arm of `apply_message`. -/
def takeControl (c : Client) (msg : Message) (now : Instant) : Client :=
  { c with
    state :=
      { c.state with
        active := true
        switchTime := now
        edgePushing := false
        mouseX := (msg.payload.i64Or "entry_x" (c.state.config.screenWidth / 2).toInt64).toInt32
        mouseY := (msg.payload.i64Or "entry_y" (c.state.config.screenHeight / 2).toInt64).toInt32 } }

/-- The `ClipboardData` arm of `apply_message`. -/
def applyClipboard (c : Client) (msg : Message) : Client :=
  match ((msg.payload.get "content").bind Value.asStr).filter
      fun _ => c.state.config.clipboardSharing with
  | some content => { c with clipboard := c.clipboard.set content }
  | none => c

/-- `as_i64().unwrap_or(0) as u16`. -/
def u16Field (msg : Message) (key : String) : UInt16 := (msg.payload.i64Or key 0).toUInt64.toUInt16

/-- `as_i64().unwrap_or(0) as i32`. -/
def i32Field (msg : Message) (key : String) : Int32 := (msg.payload.i64Or key 0).toInt32

/-- Apply a single message. Returns the motion it carries. -/
def applyMessage (c : Client) (msg : Message) (now : Instant) : Client × Int32 × Int32 :=
  match msg.msgType with
  | .switchToClient => (c.takeControl msg now, 0, 0)
  | .clipboardData => (c.applyClipboard msg, 0, 0)
  | msgType =>
      if ¬ c.state.active then (c, 0, 0)
      else
        match msgType with
        | .keyEvent =>
            ({ c with injector := c.injector.injectKey (u16Field msg "code") (i32Field msg "value") },
              0, 0)
        | .mouseMove => (c, msg.delta)
        | .mouseButton =>
            ({ c with
                injector :=
                  c.injector.injectMouseButton (u16Field msg "button") (i32Field msg "value") },
              0, 0)
        | .mouseScroll =>
            ({ c with
                injector := c.injector.injectMouseScroll (i32Field msg "dx") (i32Field msg "dy") },
              0, 0)
        | _ => (c, 0, 0)

/-- The `try_recv` loop: the rest of a batch, with the motion summed so far. -/
def applyRest (c : Client) (total : Int32 × Int32) :
    List (Message × Instant) → Client × Int32 × Int32
  | [] => (c, total)
  | m :: rest =>
      let (c, dx, dy) := c.applyMessage m.1 m.2
      c.applyRest (total.1 + dx, total.2 + dy) rest

/-- The messages of a batch, with the motion they carry together. -/
def applyBatch (c : Client) (b : Batch) : Client × Int32 × Int32 :=
  let (c, total) := c.applyMessage b.first.1 b.first.2
  c.applyRest total b.rest

/-- Move the tracked pointer. -/
def movePointer (c : Client) (dx dy : Int32) : Client :=
  { c with
    state :=
      { c.state with
        mouseX := clamp (c.state.mouseX + dx) 0 (c.state.config.screenWidth - 1)
        mouseY := clamp (c.state.mouseY + dy) 0 (c.state.config.screenHeight - 1) } }

/-- The end of a batch: its motion moves the pointer, and either hands control back (`true`, and a
`SwitchToServer` is sent next) or is injected. -/
def useMotion (c : Client) (clock : ExitClock) (total : Int32 × Int32) : Client × Bool :=
  if total.1 ≠ 0 ∨ total.2 ≠ 0 then
    let c := c.movePointer total.1 total.2
    let (exits, state) :=
      c.state.checkExitEdge clock c.state.mouseX c.state.mouseY total.1 total.2
    if exits then ({ c with state := { state with active := false } }, true)
    else ({ c with state := state, injector := c.injector.injectMouseMove total.1 total.2 }, false)
  else (c, false)

/-- One turn of the loop on `msg_rx`: a batch, and whether it hands control back. -/
def handleBatch (c : Client) (b : Batch) : Client × Bool :=
  let (c, total) := c.applyBatch b
  c.useMotion b.exit total

/-- The client of `run_async` when its loop begins: the devices are set up and the server has
acknowledged the handshake. -/
def connected (config : ClientConfig) (clipboard : ClipboardManager) (now₁ now₂ : Instant)
    (ack : Message) : Client where
  state := (ClientState.new config now₁ now₂).acknowledged ack
  injector := InputInjector.new.setup
  clipboard := clipboard

end Client

end Bluecross
