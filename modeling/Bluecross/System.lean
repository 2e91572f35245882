/-
# Bluecross.System — the server, its connection tasks and its clients as one system.

Every accepted connection has an identity. Around the server's event loop stand, for each connection,
the handler that registers it, the writer task with its bounded queue, the reader task, the two
directions of the wire and the client at the other end; the capture task and the clipboard watcher
feed the same event queue. A step of the system is a step of one of these tasks, so a run is any
interleaving, and a task that is not scheduled stalls.

A connection enters when its handshakes are done and its writer is spawned (`accept`); its handler
then queues `NewClient` and spawns the reader (`announce`). The sender of a connection's queue lives
in the handler, in the queued `NewClient`, or in the registered `ClientInfo`; when it is in none of
them it was dropped, and the writer ends once its queue is drained. A writer that leaves its loop
reports a disconnect before its end of the queue is closed.

Sources are kept with the events of the queue: which task of which connection sent them. The source
code has no such tag, and no step looks at it.
-/
import Bluecross.Client
import Bluecross.Lib.Transition
import Bluecross.Server

namespace Bluecross

open Lib (LTS)

/-- Per-client outbound queue depth. -/
def CLIENT_QUEUE : Nat := 1024

/-- The depth of the server's event queue. -/
def EVENT_QUEUE : Nat := 4096

/-- The identity of an accepted connection. -/
abbrev ConnId := Nat

/-! ## One connection -/

/-- How far the handler of a connection is. -/
inductive Phase where
  | absent
  /-- Handshakes done and writer spawned; the handler holds the sender. -/
  | accepted
  /-- `NewClient` was queued and the reader spawned. -/
  | announced
  deriving DecidableEq, Repr

/-- Why a writer left its loop. -/
inductive StopCause where
  | writeFailed
  | senderDropped
  deriving DecidableEq, Repr

/-- What the writer task of a connection is doing. -/
inductive WriterTask where
  | idle
  | writing (msg : Message)
  | stopping (cause : StopCause)
  | ended

/-- Whether the reader task of a connection still reads. -/
inductive ReaderTask where
  | running
  | ended
  deriving DecidableEq, Repr

/-- What the server does with an event was asked for by one of these. -/
inductive Source where
  | capture
  | clipboard
  | handler (c : ConnId)
  | reader (c : ConnId)
  | writer (c : ConnId) (cause : StopCause)
  deriving DecidableEq, Repr

/-- An event of the server's queue, with the task that sent it. -/
structure Event where
  source : Source
  event : ServerEvent ConnId

/-- What belongs to one connection, on both machines and between them. -/
structure Conn where
  phase : Phase
  name : String
  position : ScreenPosition
  screenWidth : Int32
  screenHeight : Int32
  /-- The messages queued for the writer. -/
  queue : List Message
  writer : WriterTask
  /-- Written by the writer and not yet taken by the client's loop. -/
  down : List Message
  client : Client
  /-- Whether the client's loop still runs. -/
  running : Bool
  /-- Written by the client and not yet taken by the reader. -/
  up : List Message
  reader : ReaderTask

/-- The steps that concern one connection alone. -/
inductive ConnStep where
  /-- The writer takes a message out of its queue. -/
  | recv
  /-- The message is written and flushed. -/
  | written
  /-- The write or the flush fails. -/
  | failed
  /-- The peer writes a message of its own accord. -/
  | send (msg : Message)
  /-- The client's loop takes a batch: the readings of the clock, and whether a `SwitchToServer` can
  be written. -/
  | batch (first : Instant) (rest : List Instant) (exit : ExitClock) (sendOk : Bool)
  /-- The client's process ends. -/
  | stop

/-- The steps that put an event into the server's queue. -/
inductive Emit where
  | announce
  | writerReport
  | readerDeliver
  | readerReport
  deriving DecidableEq, Repr

/-- A batch off a wire: one message for each reading of the clock. -/
def Batch.take (first : Instant) (rest : List Instant) (exit : ExitClock) :
    List Message → Option (Batch × List Message)
  | [] => none
  | msg :: wire =>
      if rest.length ≤ wire.length then
        some (⟨(msg, first), (wire.take rest.length).zip rest, exit⟩, wire.drop rest.length)
      else none

namespace Conn

/-- A connection after its handshakes, with the client that announced itself. -/
def accepted (server : ServerConfig) (config : ClientConfig) (position : ScreenPosition)
    (clipboard : ClipboardManager) (now₁ now₂ : Instant) : Conn :=
  let hello := Message.handshake config.name config.screenWidth config.screenHeight
  let ack := Message.handshakeAck position.asStr server.screenWidth server.screenHeight
  { phase := .accepted
    name := config.name
    position := position
    screenWidth := (hello.payload.i64Or "screen_width" 1920).toInt32
    screenHeight := (hello.payload.i64Or "screen_height" 1080).toInt32
    queue := []
    writer := .idle
    down := []
    client := Client.connected config clipboard now₁ now₂ ack
    running := true
    up := []
    reader := .running }

/-- A connection that is not there yet. -/
def absent : Conn :=
  { accepted
      { host := "", port := 0, screenWidth := 0, screenHeight := 0, edgeThreshold := 0,
        clipboardSharing := false, psk := "", clients := ∅ }
      { serverHost := "", serverPort := 0, screenWidth := 0, screenHeight := 0, name := "",
        clipboardSharing := false, psk := "" }
      .left ClipboardManager.new 0 0 with
    phase := .absent
    running := false }

/-- The client's process ends; its virtual devices go away. -/
def stopClient (k : Conn) : Conn :=
  { k with running := false, client := { k.client with injector := k.client.injector.close } }

/-- A batch of the client's loop. When the hand-back cannot be written, the client ends. -/
def takeBatch (k : Conn) (b : Batch) (wire : List Message) (sendOk : Bool) : Conn :=
  let (client, handsBack) := k.client.handleBatch b
  let k := { k with client := client, down := wire }
  if handsBack then
    if sendOk then { k with up := k.up ++ [Message.switchToServer] } else k.stopClient
  else k

/-- A step of the connection's writer or of its client. -/
def next (k : Conn) : ConnStep → Option Conn
  | .recv =>
      match k.writer, k.queue with
      | .idle, msg :: queue => some { k with writer := .writing msg, queue := queue }
      | _, _ => none
  | .written =>
      match k.writer with
      | .writing msg => some { k with writer := .idle, down := k.down ++ [msg] }
      | _ => none
  | .failed =>
      match k.writer with
      | .writing _ => some { k with writer := .stopping .writeFailed }
      | _ => none
  | .send msg => if k.running then some { k with up := k.up ++ [msg] } else none
  | .batch first rest exit sendOk =>
      if k.running then
        (Batch.take first rest exit k.down).map fun b => k.takeBatch b.1 b.2 sendOk
      else none
  | .stop => if k.running then some k.stopClient else none

/-- What the tasks of the connection send to the server. -/
def emit (c : ConnId) (k : Conn) : Emit → Option (Conn × Event)
  | .announce =>
      if k.phase = .accepted then
        some ({ k with phase := .announced },
          ⟨.handler c, .newClient k.name k.position k.screenWidth k.screenHeight c⟩)
      else none
  | .writerReport =>
      match k.writer with
      | .stopping cause =>
          some ({ k with writer := .ended }, ⟨.writer c cause, .clientDisconnected k.name⟩)
      | _ => none
  | .readerDeliver =>
      match k.phase, k.reader, k.up with
      | .announced, .running, msg :: up =>
          some ({ k with up := up }, ⟨.reader c, .clientMessage k.name msg⟩)
      | _, _, _ => none
  | .readerReport =>
      match k.phase, k.reader with
      | .announced, .running =>
          some ({ k with reader := .ended }, ⟨.reader c, .clientDisconnected k.name⟩)
      | _, _ => none

/-- `try_send` on the queue of a connection: closed once the writer task is over. -/
def trySend (k : Conn) (msg : Message) : TrySend × Conn :=
  match k.writer with
  -- the receiver is dropped when the task ends, behind its report
  | .ended => (.closed, k)
  | _ =>
      if k.queue.length < CLIENT_QUEUE then (.ok, { k with queue := k.queue ++ [msg] })
      else (.full, k)

end Conn

/-- All connections, those to come among them. -/
abbrev Conns := ConnId → Conn

instance : Mailbox Conns ConnId where
  trySend conns c msg :=
    let (answer, k) := (conns c).trySend msg
    (answer, Function.update conns c k)

/-! ## The system -/

/-- The event loop, the connections and the queue between them. -/
structure System where
  server : Server ConnId
  conns : Conns
  events : List Event

/-- A step of one of the tasks. -/
inductive Label where
  /-- A client connects and both handshakes succeed. -/
  | accept (c : ConnId) (config : ClientConfig) (clipboard : ClipboardManager)
      (now₁ now₂ : Instant)
  | conn (c : ConnId) (step : ConnStep)
  /-- The writer finds its queue drained and its sender dropped. -/
  | stopWriter (c : ConnId)
  | emit (c : ConnId) (what : Emit)
  /-- The capture task sends an event. -/
  | capture (ev : CaptureEvent)
  /-- The clipboard watcher reports a change. -/
  | copied (content : String)
  /-- The event loop handles the first event of its queue. -/
  | serve (env : Env ConnId)

namespace System

/-- A server without clients, and nothing under way. -/
def new (config : ServerConfig) (clipboard : ClipboardManager) (now : Instant) : System where
  server := Server.new config clipboard now
  conns := fun _ => Conn.absent
  events := []

/-- Another state for one connection. -/
def setConn (s : System) (c : ConnId) (k : Conn) : System :=
  { s with conns := Function.update s.conns c k }

/-- An event joins the queue. -/
def push (s : System) (e : Event) : System := { s with events := s.events ++ [e] }

/-- Somebody holds the sender of the connection's queue. -/
def senderAlive (s : System) (c : ConnId) : Bool :=
  (s.conns c).phase ≠ .announced || s.events.any (fun e => e.source = .handler c) ||
    s.server.clients.entries.any fun e => e.2.tx = c

/-- The event loop: the first event is taken off the queue and handled. -/
def serve (env : Env ConnId) (s : System) : Option System :=
  match s.events with
  | [] => none
  | e :: events =>
      let handled := s.server.handle env s.conns e.event
      some { server := handled.1, conns := handled.2, events := events }

/-- What a step makes of the system; `none` where its task has to wait. -/
def next (s : System) : Label → Option System
  | .accept c config clipboard now₁ now₂ =>
      -- a client that the configuration does not name is turned away
      match (s.conns c).phase, s.server.config.clients.lookup config.name with
      | .absent, some position =>
          some (s.setConn c
            (Conn.accepted s.server.config config position clipboard now₁ now₂))
      | _, _ => none
  | .conn c step => ((s.conns c).next step).map (s.setConn c)
  | .stopWriter c =>
      match (s.conns c).writer, (s.conns c).queue with
      -- `recv` drains the queue before it reports that the sender is gone
      | .idle, [] =>
          if s.senderAlive c then none
          else some (s.setConn c { s.conns c with writer := .stopping .senderDropped })
      | _, _ => none
  -- a task that sends an event waits until the queue has room
  | .emit c what =>
      if s.events.length < EVENT_QUEUE then
        ((s.conns c).emit c what).map fun p => (s.setConn c p.1).push p.2
      else none
  | .capture ev =>
      if s.events.length < EVENT_QUEUE then some (s.push ⟨.capture, .input ev⟩) else none
  | .copied content =>
      if s.events.length < EVENT_QUEUE ∧ s.server.config.clipboardSharing then
        some (s.push ⟨.clipboard, .clipboardChanged content⟩)
      else none
  | .serve env => s.serve env

/-- The system of a configuration, from a server without clients. -/
def lts (config : ServerConfig) : LTS System Label where
  init s := ∃ clipboard now, s = System.new config clipboard now
  next := next

end System

end Bluecross
