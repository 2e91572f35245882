/-
# Bluecross.Server — the server's event loop as a state machine.

The state is the `Server` of the source. Its handlers run inside one event loop, one event after the
other, and everything they need from outside is a parameter: the outbound queues are a `Mailbox`
(`try_send` on a handle may answer `Ok`, `Full` or `Closed` and changes the queues), and an `Env`
holds the reading of the clock and the order in which the clients map is iterated.

Each handler is the function of the source under its name, from a server and its queues to a server
and its queues. Arithmetic on coordinates and displacements wraps.
-/
import Bluecross.Clipboard
import Bluecross.Config
import Bluecross.Protocol

namespace Bluecross

/-- The events of `input_capture`. -/
inductive CaptureEvent where
  | key (code : UInt16) (value : Int32)
  | mouseMove (dx dy : Int32)
  | mouseButton (code : UInt16) (value : Int32)
  | mouseScroll (dx dy : Int32)
  deriving DecidableEq, Repr

/-! ## Outbound queues -/

/-- The answers of `mpsc::Sender::try_send`. -/
inductive TrySend where
  | ok
  | full
  | closed
  deriving DecidableEq, Repr

/-- The outbound queues `χ`, addressed by sender handles `τ`. -/
class Mailbox (χ : Type) (τ : outParam Type) where
  trySend : χ → τ → Message → TrySend × χ

/-- One call of `try_send`, as it was answered. -/
structure Attempt (τ : Type) where
  tx : τ
  msg : Message
  answer : TrySend

/-- Queues that answer as they are told, call by call, and keep a log of the calls. Any sequence of
answers is one of these. -/
structure Recorder (τ : Type) where
  answers : Nat → TrySend
  log : List (Attempt τ)

instance (τ : Type) : Mailbox (Recorder τ) τ where
  trySend r tx msg :=
    let answer := r.answers r.log.length
    (answer, { r with log := r.log ++ [⟨tx, msg, answer⟩] })

/-- A registered client. -/
structure ClientInfo (τ : Type) where
  position : ScreenPosition
  screenWidth : Int32
  screenHeight : Int32
  /-- Outbound queue drained by a dedicated writer task. -/
  tx : τ

/-- The registered clients, by their names. -/
abbrev Clients (τ : Type) := AList fun _ : String => ClientInfo τ

/-- The order in which a `HashMap` is iterated: some order of its entries, at every iteration. -/
def HashOrder (τ : Type) :=
  { f : Clients τ → List (String × ClientInfo τ) //
    ∀ c, (f c).Perm (c.entries.map fun e => (e.1, e.2)) }

/-- The order of the entries as they are kept. -/
def HashOrder.entries (τ : Type) : HashOrder τ :=
  ⟨fun c => c.entries.map fun e => (e.1, e.2), fun _ => .refl _⟩

/-- Whatever the order, the entries are those of the map. -/
theorem HashOrder.mem_iff {τ : Type} (order : HashOrder τ) {clients : Clients τ} {name : String}
    {client : ClientInfo τ} :
    (name, client) ∈ order.1 clients ↔ clients.lookup name = some client := by
  rw [(order.2 clients).mem_iff, List.mem_map]
  constructor
  · rintro ⟨⟨n, c⟩, hmem, heq⟩
    cases heq
    exact AList.mem_lookup_iff.mpr hmem
  · intro h
    exact ⟨⟨name, client⟩, AList.mem_lookup_iff.mp h, rfl⟩

/-- What a handler reads from outside: the clock and the order of the clients. -/
structure Env (τ : Type) where
  now : Instant
  order : HashOrder τ

/-- What the event loop takes out of its queue. -/
inductive ServerEvent (τ : Type) where
  | input (ev : CaptureEvent)
  | newClient (name : String) (position : ScreenPosition) (screenWidth screenHeight : Int32)
      (tx : τ)
  | clientMessage (name : String) (msg : Message)
  | clientDisconnected (name : String)
  | clipboardChanged (content : String)

/-! ## The server -/

/-- The state of the event loop. -/
structure Server (τ : Type) where
  config : ServerConfig
  clients : Clients τ
  activeClient : Option String
  grabbed : Bool
  mouseX : Int32
  mouseY : Int32
  pendingDx : Int32
  pendingDy : Int32
  lastFlush : Instant
  clipboard : ClipboardManager
  clipboardPaused : Bool

namespace Server

variable {τ χ : Type}

/-- No client is registered, and the cursor is in the centre. -/
def new (config : ServerConfig) (clipboard : ClipboardManager) (now : Instant) : Server τ where
  config := config
  clients := ∅
  activeClient := none
  grabbed := false
  mouseX := config.screenWidth / 2
  mouseY := config.screenHeight / 2
  pendingDx := 0
  pendingDy := 0
  lastFlush := now
  clipboard := clipboard
  clipboardPaused := false

/-- `grab_devices`, once: a device that is grabbed is the program's alone. -/
def grabDevices (s : Server τ) : Server τ :=
  if s.grabbed then s else { s with grabbed := true }

/-- `ungrab_devices`, once. -/
def ungrabDevices (s : Server τ) : Server τ :=
  if s.grabbed then { s with grabbed := false } else s

/-- Other motion that waits to be forwarded. -/
def setPending (s : Server τ) (dx dy : Int32) : Server τ :=
  { s with pendingDx := dx, pendingDy := dy }

/-- Put the local cursor in the centre, so that returning control does not trigger an edge. -/
def centerCursor (s : Server τ) : Server τ :=
  { s with
    mouseX := s.config.screenWidth / 2
    mouseY := s.config.screenHeight / 2
    pendingDx := 0
    pendingDy := 0 }

/-- Clear the active client and restore local control. -/
def deactivate (s : Server τ) (name : String) : Server τ :=
  if s.activeClient = some name then
    centerCursor { ungrabDevices { s with activeClient := none } with clipboardPaused := false }
  else s

/-- The client of an entry, with the entry point on its screen, if the cursor is at its edge. -/
def edgeOf (config : ServerConfig) (x y : Int32) (name : String) (client : ClientInfo τ) :
    Option (String × Int32 × Int32) :=
  let threshold := config.edgeThreshold
  let serverW := config.screenWidth
  let serverH := config.screenHeight
  let entryOffset : Int32 := 100
  match client.position with
  | .left =>
      if x ≤ threshold then
        some (name, client.screenWidth - entryOffset, y * client.screenHeight / serverH)
      else none
  -- the far edges are one pixel nearer, as the cursor stays below the size
  | .right =>
      if x ≥ serverW - threshold - 1 then
        some (name, entryOffset, y * client.screenHeight / serverH)
      else none
  | .top =>
      if y ≤ threshold then
        some (name, x * client.screenWidth / serverW, client.screenHeight - entryOffset)
      else none
  | .bottom =>
      if y ≥ serverH - threshold - 1 then
        some (name, x * client.screenWidth / serverW, entryOffset)
      else none

/-- The first client, in the order of the map, whose edge the cursor is at. -/
def checkEdge (env : Env τ) (s : Server τ) (x y : Int32) : Option (String × Int32 × Int32) :=
  (env.order.1 s.clients).findSome? fun entry => edgeOf s.config x y entry.1 entry.2

variable [Mailbox χ τ]

/-- Queue a message to a client. `false` when the client is gone; a full queue drops the message and
is not fatal. -/
def sendTo (s : Server τ) (ch : χ) (name : String) (msg : Message) : Bool × χ :=
  match s.clients.lookup name with
  | some client =>
      match Mailbox.trySend ch client.tx msg with
      | (.ok, ch) => (true, ch)
      -- dropped, and reported as sent
      | (.full, ch) => (true, ch)
      | (.closed, ch) => (false, ch)
  | none => (false, ch)

/-- `if !self.send_to(name, msg) { self.deactivate(name) }`: queue a message, and give control back
when the client is gone. -/
def sendOrDeactivate (s : Server τ) (ch : χ) (name : String) (msg : Message) : Server τ × χ :=
  let sent := s.sendTo ch name msg
  if sent.1 then (s, sent.2) else (s.deactivate name, sent.2)

/-- Forward a message to the active client, if asked after the pending motion, so that motion stays
ordered ahead of keys and buttons. -/
def forwardToActive (s : Server τ) (ch : χ) (msg : Message) (flushMotion : Bool) :
    Server τ × χ :=
  match s.activeClient with
  | none => (s, ch)
  | some activeName =>
      if flushMotion ∧ (s.pendingDx ≠ 0 ∨ s.pendingDy ≠ 0) then
        let motion := Message.mouseMove s.mouseX s.mouseY s.pendingDx s.pendingDy
        let s := s.setPending 0 0
        let sent := s.sendTo ch activeName motion
        -- when the motion finds the client gone, the message is not tried
        if sent.1 then s.sendOrDeactivate sent.2 activeName msg
        else (s.deactivate activeName, sent.2)
      else s.sendOrDeactivate ch activeName msg

/-- The cursor after a captured motion. -/
def moveCursor (s : Server τ) (dx dy : Int32) : Server τ :=
  { s with
    mouseX := clamp (s.mouseX + dx) 0 (s.config.screenWidth - 1)
    mouseY := clamp (s.mouseY + dy) 0 (s.config.screenHeight - 1) }

/-- The part of `handle_input` for motion while a client is active: accumulate, and flush when the
last flush is two milliseconds ago. -/
def forwardMotion (env : Env τ) (s : Server τ) (ch : χ) (activeName : String) (dx dy : Int32) :
    Server τ × χ :=
  let s := s.setPending (s.pendingDx + dx) (s.pendingDy + dy)
  if Instant.durationSince env.now s.lastFlush ≥ Duration.fromMillis 2 then
    let msg := Message.mouseMove s.mouseX s.mouseY s.pendingDx s.pendingDy
    let sent := s.sendTo ch activeName msg
    if sent.1 then ({ s.setPending 0 0 with lastFlush := env.now }, sent.2)
    else (s.deactivate activeName, sent.2)
  else (s, ch)

/-- The part of `handle_input` that hands control to a client whose edge was reached. -/
def switchTo (s : Server τ) (ch : χ) (name : String) (entryX entryY : Int32) : Server τ × χ :=
  let s := { grabDevices { s with activeClient := some name } with clipboardPaused := true }
  s.sendOrDeactivate ch name (Message.switchToClient entryX entryY)

/-- Captured input: it moves the cursor, it may hand control over, and it goes to the active client.
-/
def handleInput (env : Env τ) (s : Server τ) (ch : χ) : CaptureEvent → Server τ × χ
  | .mouseMove dx dy =>
      let s := s.moveCursor dx dy
      match s.activeClient with
      | some activeName => s.forwardMotion env ch activeName dx dy
      | none =>
          match s.checkEdge env s.mouseX s.mouseY with
          | some (name, entryX, entryY) => s.switchTo ch name entryX entryY
          | none => (s, ch)
  | .key code value => s.forwardToActive ch (Message.keyEvent code value) true
  | .mouseButton code value => s.forwardToActive ch (Message.mouseButton code value) true
  | .mouseScroll dx dy => s.forwardToActive ch (Message.mouseScroll dx dy) false

/-- One message to several clients; failures are ignored. -/
def sendEach (s : Server τ) (msg : Message) (ch : χ) (names : List String) : χ :=
  names.foldl (fun ch name => (s.sendTo ch name msg).2) ch

/-- The names of the clients, in the order of the map. -/
def names (env : Env τ) (s : Server τ) : List String :=
  (env.order.1 s.clients).map Prod.fst

/-- A client hands control back, or shares a value of its clipboard. -/
def handleClientMessage (env : Env τ) (s : Server τ) (ch : χ) (clientName : String)
    (msg : Message) : Server τ × χ :=
  match msg.msgType with
  | .switchToServer =>
      if s.activeClient = some clientName then (s.deactivate clientName, ch) else (s, ch)
  | .clipboardData =>
      match ((msg.payload.get "content").bind Value.asStr).filter
          fun _ => s.config.clipboardSharing with
      | some content =>
          let s := { s with clipboard := s.clipboard.set content }
          let others := (s.names env).filter fun n => n ≠ clientName
          (s, s.sendEach (Message.clipboardData content) ch others)
      | none => (s, ch)
  | _ => (s, ch)

/-- The client is forgotten, and if it was active the server takes control. -/
def handleClientDisconnect (s : Server τ) (clientName : String) : Server τ :=
  deactivate { s with clients := s.clients.erase clientName } clientName

/-- A value of the server's clipboard goes to every client, unless sharing is paused. -/
def broadcastClipboard (env : Env τ) (s : Server τ) (ch : χ) (content : String) : χ :=
  if s.clients.entries.isEmpty ∨ s.clipboardPaused then ch
  else s.sendEach (Message.clipboardData content) ch (s.names env)

/-- The dispatch of the event loop of `run_async`. -/
def handle (env : Env τ) (s : Server τ) (ch : χ) : ServerEvent τ → Server τ × χ
  | .input ev => s.handleInput env ch ev
  | .newClient name position screenWidth screenHeight tx =>
      -- what was registered under the name is replaced, and its sender dropped
      ({ s with clients := s.clients.insert name ⟨position, screenWidth, screenHeight, tx⟩ }, ch)
  | .clientMessage name msg => s.handleClientMessage env ch name msg
  | .clientDisconnected name => (s.handleClientDisconnect name, ch)
  | .clipboardChanged content => (s, s.broadcastClipboard env ch content)

end Server

end Bluecross
