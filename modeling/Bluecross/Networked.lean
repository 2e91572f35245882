/-
# Bluecross.Networked — the programs over encrypted bytes.

`Deployed` gives every connection two lists of messages for wires. Here the wires are channels of
encrypted bytes: the writer of a connection and the main task of its client encrypt a message frame by
frame into a buffered writer, the bytes leave, get lost and arrive in pieces of any size, and the two
readers are in the middle of a `receive` while everything else goes on. `send` and `flush` return when
nothing is left in the buffered writer; until then the writer task takes no other message, and the main
task of the client does nothing else.

In `deployed`, `down` and `up` of a connection are only what a `receive` or `receive_all_buffered` has
just returned to the reader's task. With what the channels hold behind them they are the wires of
`Deployed` (`Networked.Mirrors`), and every step is a step of `Deployed` or none
(`networked_simulates`).
-/
import Bluecross.Deployed
import Bluecross.SecureChannel

namespace Bluecross

open Lib (LTS)

/-! ## The programs and their channels -/

/-- The sessions of a connection and the frames that its handshakes have used up. -/
structure Link where
  serverSends : TransportState
  clientReceives : TransportState
  down : Nat
  downwards : InOrder serverSends clientReceives
  clientSends : TransportState
  serverReceives : TransportState
  up : Nat
  upwards : InOrder clientSends serverReceives

/-- The deployed system, and an encrypted channel for each direction of each connection. -/
structure Networked where
  deployed : Deployed
  downs : ConnId → SecureChannel
  ups : ConnId → SecureChannel

/-- A step of a program, or of a channel. -/
inductive NetworkedLabel where
  | server (l : Label)
  | client (c : ConnId) (step : TaskStep)
  /-- On the way from the server to a client. -/
  | down (c : ConnId) (step : ChannelStep)
  /-- On the way from a client to the server. -/
  | up (c : ConnId) (step : ChannelStep)
  /-- A client's reader calls `receive_all_buffered`. -/
  | drain (c : ConnId)
  /-- `send` or `flush` fails in the main task of a client. -/
  | fails (c : ConnId)

/-- The steps of the server, as `System` has them. -/
def NetworkedLabel.shown : NetworkedLabel → List Label
  | .server l => [l]
  | _ => []

/-- `receive` has given `Ok(None)` or an error. -/
def SecureChannel.isOver (ch : SecureChannel) : Bool :=
  match ch.receiving with
  | .ended _ => true
  | _ => false

/-- The task is in the middle of a write. -/
def WriterTask.isWriting : WriterTask → Bool
  | .writing _ => true
  | _ => false

/-- The task is in `receive`. -/
def ClientReader.isReceiving : ClientReader → Bool
  | .receiving => true
  | _ => false

/-- The reader task of the server is there. -/
def Conn.reads (k : Conn) : Bool := k.phase = .announced && k.reader = .running

namespace Networked

variable (serde : SerdeJson) (links : ConnId → Link)

/-- The connection, as its tasks have it. -/
def conn (n : Networked) (c : ConnId) : Conn := n.deployed.system.conns c

/-- Everything that belongs to one connection changes. -/
def put (n : Networked) (c : ConnId) (k : Conn) (t : ClientTasks) (down up : SecureChannel) :
    Networked where
  deployed :=
    { system := n.deployed.system.setConn c k, tasks := Function.update n.deployed.tasks c t }
  downs := Function.update n.downs c down
  ups := Function.update n.ups c up

/-- The steps of the server's side. -/
def nextServer (n : Networked) (l : Label) : Option Networked :=
  match l with
  | .accept c config clipboard now₁ now₂ =>
      (n.deployed.next (.server (.accept c config clipboard now₁ now₂))).map fun d =>
        { deployed := d
          downs := Function.update n.downs c
            (SecureChannel.new (links c).serverSends (links c).clientReceives (links c).down)
          ups := Function.update n.ups c
            (SecureChannel.new (links c).clientSends (links c).serverReceives (links c).up) }
  | .conn c .recv =>
      match (n.conn c).queue with
      | msg :: _ =>
          (n.deployed.next (.server (.conn c .recv))).map fun d =>
            { n with deployed := d, downs := Function.update n.downs c ((n.downs c).send serde msg) }
      | [] => none
  | .conn c .written =>
      -- the last bytes of the message leave, and `flush` returns
      match (n.conn c).writer, (n.downs c).pending with
      | .writing _, [] =>
          ((n.downs c).next serde (.leave (n.downs c).writer.writer.length)).map fun p =>
            n.put c { n.conn c with writer := .idle } (n.deployed.tasks c) p.1 (n.ups c)
      | _, _ => none
  | .emit c .readerReport =>
      if (n.ups c).isOver ∧ (n.conn c).up.isEmpty then
        (n.deployed.next (.server (.emit c .readerReport))).map fun d => { n with deployed := d }
      else none
  | l => (n.deployed.next (.server l)).map fun d => { n with deployed := d }

/-- Whether the tasks of a client can take the step: the main task does nothing while a `send` or a
`flush` has not returned, and what a channel does is not in the tasks. -/
def ready (n : Networked) (c : ConnId) : TaskStep → Bool
  | .received => true
  | .passed => true
  | .copied _ => true
  | .buffered _ => false
  | .streamEnds => (n.downs c).isOver && (n.conn c).down.isEmpty
  | .heartbeat sendOk => sendOk && (n.ups c).quiet
  | .clip sendOk => sendOk && (n.ups c).quiet
  | .drained _ sendOk => sendOk && (n.ups c).quiet
  | _ => (n.ups c).quiet

/-- A step of a client's tasks; what it writes goes into the channel. -/
def nextClient (n : Networked) (c : ConnId) (step : TaskStep) : Option Networked :=
  if n.ready c step then
    ((n.deployed.tasks c).next (n.conn c) step).map fun p =>
      n.put c { p.1 with up := (n.conn c).up } p.2 (n.downs c)
        (match p.1.up.drop (n.conn c).up.length with
        | [] => n.ups c
        | msg :: _ => (n.ups c).send serde msg)
  else none

/-- Whether the tasks at the two ends are where a step on the way to a client needs them. -/
def downReady (n : Networked) (c : ConnId) (step : ChannelStep) (ch : SecureChannel) : Bool :=
  match step with
  | .writeFrame => (n.conn c).writer.isWriting
  -- the last bytes of a message leave with `written`
  | .leave _ => (n.conn c).writer.isWriting && !ch.quiet
  | .call => (n.conn c).running && (n.conn c).down.isEmpty && (n.deployed.tasks c).reader.isReceiving
  | .fill _ => (n.conn c).running
  | .eof => (n.conn c).running
  | .arrive _ => true
  | .breaks _ _ => true

/-- A step on the way to a client. -/
def nextDown (n : Networked) (c : ConnId) (step : ChannelStep) : Option Networked :=
  ((n.downs c).next serde step).bind fun p =>
    if n.downReady c step p.1 then
      some (n.put c { n.conn c with down := (n.conn c).down ++ p.2 } (n.deployed.tasks c) p.1 (n.ups c))
    else none

/-- Whether the tasks at the two ends are where a step on the way from a client needs them. -/
def upReady (n : Networked) (c : ConnId) : ChannelStep → Bool
  | .writeFrame => (n.conn c).running
  | .leave _ => (n.conn c).running
  | .call => (n.conn c).reads && (n.conn c).up.isEmpty
  | .fill _ => (n.conn c).reads
  | .eof => (n.conn c).reads
  | .arrive _ => true
  | .breaks _ _ => true

/-- A step on the way from a client. -/
def nextUp (n : Networked) (c : ConnId) (step : ChannelStep) : Option Networked :=
  ((n.ups c).next serde step).bind fun p =>
    if n.upReady c step then
      some (n.put c { n.conn c with up := (n.conn c).up ++ p.2 } (n.deployed.tasks c) (n.downs c) p.1)
    else none

/-- `receive_all_buffered`, whose messages the reader's task then passes on. -/
def nextDrain (n : Networked) (c : ConnId) : Option Networked :=
  match (n.downs c).receiving with
  | .waiting =>
      let drained := (n.downs c).drain serde
      ((n.deployed.tasks c).next { n.conn c with down := (n.conn c).down ++ drained.1 }
        (.buffered drained.1.length)).map fun p => n.put c p.1 p.2 drained.2 (n.ups c)
  | _ => none

/-- What a step makes of the programs and their channels. -/
def next (n : Networked) : NetworkedLabel → Option Networked
  | .server l => if l.byServer then n.nextServer serde links l else none
  | .client c step => n.nextClient serde c step
  | .down c step => n.nextDown serde c step
  | .up c step => n.nextUp serde c step
  | .drain c => n.nextDrain serde c
  | .fails c =>
      if (n.conn c).running ∧ ¬ (n.ups c).quiet then
        some (n.put c (n.conn c).stopClient (n.deployed.tasks c) (n.downs c) (n.ups c))
      else none

/-- The deployed system over fresh channels. -/
def lts (config : ServerConfig) : LTS Networked NetworkedLabel where
  init n := (Deployed.lts config).init n.deployed ∧
    (∀ c, n.downs c
      = SecureChannel.new (links c).serverSends (links c).clientReceives (links c).down) ∧
    ∀ c, n.ups c = SecureChannel.new (links c).clientSends (links c).serverReceives (links c).up
  next := next serde links

end Networked

/-! ## Wires behind wires -/

/-- The connection with more behind its wires. -/
def Conn.extend (down up : List Message) (k : Conn) : Conn :=
  { k with down := k.down ++ down, up := k.up ++ up }

/-- What the channels of a connection hold: messages for the client, the message that is being written
to it, and messages for the server. -/
structure Wires where
  down : List Message
  part : List Message
  up : List Message

/-- What is in the channels is on the wires. -/
def Conns.extend (w : ConnId → Wires) (conns : Conns) : Conns :=
  fun c => (conns c).extend (w c).down (w c).up

/-- The system that the programs and their channels make up. -/
def System.extend (w : ConnId → Wires) (s : System) : System :=
  { s with conns := s.conns.extend w }

theorem Conns.extend_update (w : ConnId → Wires) (conns : Conns) (c : ConnId) (k : Conn) :
    Conns.extend w (Function.update conns c k)
      = Function.update (Conns.extend w conns) c (k.extend (w c).down (w c).up) := by
  funext c'
  by_cases hc : c' = c
  · subst hc
    simp [Conns.extend]
  · simp [Conns.extend, hc]

theorem answersAlike_extend (w : ConnId → Wires) : Server.AnswersAlike (Conns.extend w) := by
  intro conns c msg
  have hwriter : (conns.extend w c).writer = (conns c).writer := rfl
  have hqueue : (conns.extend w c).queue = (conns c).queue := rfl
  by_cases hended : (conns c).writer = .ended
  · rw [trySend_ended hended]
    exact trySend_ended (hwriter.trans hended) msg
  · by_cases hroom : (conns c).queue.length < CLIENT_QUEUE
    · rw [trySend_room hended hroom, Prod.map_apply, Conns.extend_update]
      exact trySend_room (hwriter ▸ hended) (hqueue ▸ hroom) msg
    · rw [trySend_full hended hroom]
      exact trySend_full (hwriter ▸ hended) (hqueue ▸ hroom) msg

namespace System

variable {s s' : System} {l : Label}

theorem extend_setConn (w : ConnId → Wires) (s : System) (c : ConnId) (k : Conn) :
    (s.extend w).setConn c (k.extend (w c).down (w c).up) = (s.setConn c k).extend w := by
  show ({ s with conns := Function.update (s.conns.extend w) c _ } : System)
    = { s with conns := Conns.extend w (Function.update s.conns c k) }
  rw [Conns.extend_update]

/-- The system with other wires behind one connection, and that connection changed. -/
theorem extend_update (w : ConnId → Wires) (s : System) (c : ConnId) (k : Conn) (wires : Wires) :
    (s.setConn c k).extend (Function.update w c wires)
      = (s.extend w).setConn c (k.extend wires.down wires.up) := by
  have hconns : ((s.setConn c k).extend (Function.update w c wires)).conns
      = ((s.extend w).setConn c (k.extend wires.down wires.up)).conns := by
    funext c'
    by_cases hc : c' = c
    · subst hc
      simp [extend, Conns.extend, setConn]
    · simp [extend, Conns.extend, setConn, hc]
  show System.mk _ _ _ = System.mk _ _ _
  rw [System.mk.injEq]
  exact ⟨rfl, hconns, rfl⟩

/-- A step of the server goes the same way with more behind the wires. -/
theorem next_extend (h : s.next l = some s') (hserver : l.byServer = true)
    (hnew : ∀ c config clipboard now₁ now₂, l ≠ .accept c config clipboard now₁ now₂)
    (hwritten : ∀ c, l ≠ .conn c .written) (w : ConnId → Wires) :
    (s.extend w).next l = some (s'.extend w) := by
  have hevents : (s.extend w).events = s.events := rfl
  have hconns : ∀ c, (s.extend w).conns c = (s.conns c).extend (w c).down (w c).up := fun _ => rfl
  cases l with
  | accept c config clipboard now₁ now₂ => exact absurd rfl (hnew _ _ _ _ _)
  | conn c step =>
      obtain ⟨k, hstep, rfl⟩ := Option.map_eq_some_iff.mp h
      have hconn : ((s.conns c).extend (w c).down (w c).up).next step
          = some (k.extend (w c).down (w c).up) := by
        cases Conn.step_of_next hstep with
        | recv hwriter hqueue => simp [Conn.next, Conn.extend, hwriter, hqueue]
        | written _ => exact absurd rfl (hwritten c)
        | failed hwriter => simp [Conn.next, Conn.extend, hwriter]
        | send _ => cases hserver
        | batch _ _ => cases hserver
        | stop _ => cases hserver
      show (((s.conns c).extend (w c).down (w c).up).next step).map _ = _
      rw [hconn, Option.map_some, extend_setConn]
  | stopWriter c =>
      cases step_of_next h with
      | stopWriter hwriter hqueue halive =>
          have halive' : (s.extend w).senderAlive c = false := halive
          simp [next, hwriter, hqueue, halive', ← extend_setConn, hconns, Conn.extend]
  | emit c what =>
      unfold next at h ⊢
      simp only [hevents, hconns] at h ⊢
      split at h
      · obtain ⟨⟨k, e⟩, hemit, rfl⟩ := Option.map_eq_some_iff.mp h
        have hconn : ((s.conns c).extend (w c).down (w c).up).emit c what
            = some (k.extend (w c).down (w c).up, e) := by
          cases Conn.emits_of_emit hemit with
          | announce hphase => simp [Conn.emit, Conn.extend, hphase]
          | writerReport hwriter => simp [Conn.emit, Conn.extend, hwriter]
          | readerDeliver hphase hreader hup => simp [Conn.emit, Conn.extend, hphase, hreader, hup]
          | readerReport hphase hreader => simp [Conn.emit, Conn.extend, hphase, hreader]
        rw [if_pos ‹_›, hconn, Option.map_some, extend_setConn]
        rfl
      · cases h
  | capture ev =>
      unfold next at h ⊢
      simp only [hevents] at h ⊢
      split at h
      · cases h
        rw [if_pos ‹_›]
        rfl
      · cases h
  | copied content =>
      have hconfig : (s.extend w).server = s.server := rfl
      unfold next at h ⊢
      simp only [hevents, hconfig] at h ⊢
      split at h
      · cases h
        rw [if_pos ‹_›]
        rfl
      · cases h
  | serve env =>
      have hhandled := Server.handle_natural (answersAlike_extend w) env s.server s.conns
      cases step_of_next h with
      | @serve _ e events hqueue =>
          have hqueue' : (s.extend w).events = e :: events := hqueue
          have hserver' : (s.extend w).server = s.server := rfl
          have hall : (s.extend w).conns = s.conns.extend w := rfl
          show serve env (s.extend w) = _
          simp only [serve, hqueue', hserver', hall, hhandled]
          rfl

end System

/-! ## A client with more behind its wires -/

/-- `send` and `flush` do not fail in the step, and it is not one for the channels. -/
def TaskStep.Plain : TaskStep → Prop
  | .buffered _ => False
  | .heartbeat sendOk => sendOk = true
  | .clip sendOk => sendOk = true
  | .drained _ sendOk => sendOk = true
  | _ => True

/-- The steps that may write a message. -/
def TaskStep.writes : TaskStep → Bool
  | .heartbeat _ => true
  | .clip _ => true
  | .drained _ _ => true
  | _ => false

/-- The steps of the main task. -/
def TaskStep.byMain : TaskStep → Bool
  | .received => false
  | .passed => false
  | .buffered _ => false
  | .streamEnds => false
  | .copied _ => false
  | _ => true

namespace ClientTasks

variable {t t' : ClientTasks} {k k' : Conn} {step : TaskStep}

/-- What a client's tasks do leaves the writer of the server alone. -/
theorem Step.writer_eq (h : t.Step k step k' t') : k'.writer = k.writer := by
  cases h with
  | @heartbeat sendOk _ _ => cases sendOk <;> rfl
  | @clip sendOk _ _ _ _ _ => cases sendOk <;> rfl
  | @drained exit sendOk total _ _ _ =>
      unfold Conn.afterBatch
      simp only
      split
      · cases sendOk <;> rfl
      · rfl
  | _ => rfl

/-- A step that is not the main task's leaves it where it is. -/
theorem Step.main_eq (h : t.Step k step k' t') (hmain : step.byMain = false) :
    t'.main = t.main ∧ k'.running = k.running := by
  cases h with
  | heartbeat _ _ => cases hmain
  | clip _ _ _ => cases hmain
  | recv _ _ _ => cases hmain
  | tryRecv _ _ _ => cases hmain
  | drained _ _ _ => cases hmain
  | lost _ _ _ _ => cases hmain
  | signal _ _ => cases hmain
  | _ => exact ⟨rfl, rfl⟩

/-- A step of the tasks goes the same way with more behind the wires. What it writes comes behind all
of it, and is written by the main task, which then selects again. -/
theorem Step.extend (h : t.Step k step k' t') (hplain : step.Plain) (down up : List Message) :
    (k'.up = k.up ∧ t.next (k.extend down up) step = some (k'.extend down up, t')) ∨
    ∃ msg, k'.up = k.up ++ [msg] ∧ step.writes = true ∧ t'.main = .selecting ∧
      t.next (k.extend down up) step
        = some ({ k' with up := k.up }.extend down (up ++ [msg]), t') := by
  cases h with
  | received hrunning hreader hdown =>
      exact Or.inl ⟨rfl, by simp [next, Conn.extend, hrunning, hreader, hdown]⟩
  | passedFirst hrunning hroom hreader =>
      exact Or.inl ⟨rfl, by simp [next, Conn.extend, hrunning, hroom, hreader]⟩
  | passedRest hrunning hroom hreader =>
      exact Or.inl ⟨rfl, by simp [next, Conn.extend, hrunning, hroom, hreader]⟩
  | buffered hrunning hreader => exact hplain.elim
  | streamEnds hrunning hreader =>
      exact Or.inl ⟨rfl, by simp [next, Conn.extend, hrunning, hreader]⟩
  | copied hrunning hsharing hroom =>
      exact Or.inl ⟨rfl, by simp [next, Conn.extend, hrunning, hsharing, hroom]⟩
  | heartbeat hrunning hmain =>
      obtain rfl := hplain
      refine Or.inr ⟨Message.heartbeat, rfl, rfl, hmain, ?_⟩
      simp [next, Conn.extend, hrunning, hmain, Conn.clientWrites]
  | clip hrunning hmain hclips =>
      obtain rfl := hplain
      refine Or.inr ⟨_, rfl, rfl, hmain, ?_⟩
      simp [next, Conn.extend, hrunning, hmain, hclips, Conn.clientWrites]
  | recv hrunning hmain hchannel =>
      exact Or.inl ⟨rfl, by simp [next, Conn.extend, hrunning, hmain, hchannel]⟩
  | tryRecv hrunning hmain hchannel =>
      exact Or.inl ⟨rfl, by simp [next, Conn.extend, hrunning, hmain, hchannel]; rfl⟩
  | @drained exit sendOk total hrunning hmain hchannel =>
      obtain rfl := hplain
      have hnext : t.next (k.extend down up) (.drained exit true)
          = some ((k.extend down up).afterBatch exit total true, { t with main := .selecting }) := by
        simp [next, Conn.extend, hrunning, hmain, hchannel]
      rw [hnext]
      unfold Conn.afterBatch
      have hsame : (k.extend down up).client = k.client := rfl
      rw [hsame]
      rcases hback : (k.client.useMotion exit total).2 with _ | _
      · exact Or.inl ⟨by simp [hback], by simp [hback, Conn.extend]⟩
      · refine Or.inr ⟨Message.switchToServer, by simp [hback, Conn.clientWrites], rfl, rfl, ?_⟩
        simp [hback, Conn.extend, Conn.clientWrites]
  | lost hrunning hmain hchannel hreader =>
      exact Or.inl ⟨rfl, by simp [next, Conn.extend, hrunning, hmain, hchannel, hreader, Conn.stopClient]⟩
  | signal hrunning hmain =>
      exact Or.inl ⟨rfl, by simp [next, Conn.extend, hrunning, hmain, Conn.stopClient]⟩

/-- `receive_all_buffered` takes what it returns from the front of the wire. -/
theorem extend_buffered {msgs : List Message}
    (h : t.next { k with down := k.down ++ msgs } (.buffered msgs.length) = some (k', t'))
    (down up : List Message) :
    k'.writer = k.writer ∧ k'.running = k.running ∧ t'.main = t.main ∧
      t.next (k.extend (msgs ++ down) up) (.buffered msgs.length) = some (k'.extend down up, t') := by
  have hle : msgs.length ≤ (k.down ++ msgs).length := by simp
  cases step_of_next h with
  | buffered hrunning hreader =>
      have hrunning' : k.running = true := hrunning
      refine ⟨rfl, rfl, rfl, ?_⟩
      simp only [next, Conn.extend, hrunning', hreader, not_true_eq_false, if_false]
      rw [← List.append_assoc, List.take_append_of_le_length hle, List.drop_append_of_le_length hle]

end ClientTasks

/-! ## The simulation -/

namespace Networked

variable {serde : SerdeJson} {links : ConnId → Link} {config : ServerConfig}
variable {n n' : Networked} {d : Deployed} {w : ConnId → Wires} {c : ConnId}
variable {G : System → Label → Prop}

/-- The channel to a client, beside the task that writes to it. -/
structure DownHolds (serde : SerdeJson) (writer : WriterTask) (ch : SecureChannel) (w : Wires) :
    Prop where
  holds : ch.isOver = true ∨ ch.Holds serde w.down w.part
  idle : writer = .idle → w.part = [] ∧ ch.quiet = true
  writing : ∀ msg, writer = .writing msg → w.part = [msg] ∧ ch.quiet = false

/-- The channel from a client, beside its main task. -/
structure UpHolds (serde : SerdeJson) (running : Bool) (main : MainTask) (ch : SecureChannel)
    (w : Wires) :
    Prop where
  holds : ch.isOver = true ∨
    ∃ q x, w.up = q ++ x ∧ ch.Holds serde q x ∧ (ch.quiet = true → x = [])
  busy : running = true → ch.quiet = false → main = .selecting

/-- The channels of a connection hold what is behind its wires. -/
structure Linked (serde : SerdeJson) (n : Networked) (c : ConnId) (w : Wires) : Prop where
  down : DownHolds serde (n.conn c).writer (n.downs c) w
  up : UpHolds serde (n.conn c).running (n.deployed.tasks c).main (n.ups c) w

/-- The deployed programs have what the channels hold behind their wires. -/
def Mirrors (serde : SerdeJson) (n : Networked) (d : Deployed) : Prop :=
  ∃ w, (∀ c, Linked serde n c (w c)) ∧ d = { n.deployed with system := n.deployed.system.extend w }

/-- One connection has changed with its channels. -/
theorem mirrors_put (hw : ∀ c, Linked serde n c (w c)) (c : ConnId) (wires : Wires) {k : Conn}
    {t : ClientTasks} {down up : SecureChannel}
    (hdown : DownHolds serde k.writer down wires)
    (hup : UpHolds serde k.running t.main up wires) :
    Mirrors serde (n.put c k t down up)
      { system := (n.deployed.system.extend w).setConn c (k.extend wires.down wires.up)
        tasks := Function.update n.deployed.tasks c t } := by
  refine ⟨Function.update w c wires, ?_, ?_⟩
  · intro c'
    by_cases hc : c' = c
    · subst hc
      refine ⟨?_, ?_⟩
      · simpa [put, conn] using hdown
      · simpa [put, conn] using hup
    · obtain ⟨hdown', hup'⟩ := hw c'
      refine ⟨?_, ?_⟩
      · simpa [put, conn, System.conns_setConn_of_ne hc, hc] using hdown'
      · simpa [put, conn, System.conns_setConn_of_ne hc, hc] using hup'
  · show _ = Deployed.mk _ _
    rw [← System.extend_update]
    rfl

/-- The same, for a connection that the deployed programs see unchanged. -/
theorem mirrors_put_same (hw : ∀ c, Linked serde n c (w c)) (c : ConnId) (wires : Wires) {k : Conn}
    {down up : SecureChannel}
    (hdown : DownHolds serde k.writer down wires)
    (hup : UpHolds serde k.running (n.deployed.tasks c).main up wires)
    (hsame : k.extend wires.down wires.up = (n.conn c).extend (w c).down (w c).up) :
    Mirrors serde (n.put c k (n.deployed.tasks c) down up)
      { n.deployed with system := n.deployed.system.extend w } := by
  have hput := mirrors_put hw c wires hdown hup
  rw [hsame, Function.update_eq_self] at hput
  have hconn : (n.deployed.system.extend w).setConn c ((n.conn c).extend (w c).down (w c).up)
      = n.deployed.system.extend w := by
    show System.mk _ (Function.update _ c ((n.deployed.system.extend w).conns c)) _ = _
    rw [Function.update_eq_self]
  rwa [hconn] at hput

theorem isOver_next {ch ch' : SecureChannel} {step : ChannelStep} {out : List Message}
    (hover : ch.isOver = true) (hnext : ch.next serde step = some (ch', out)) :
    out = [] ∧ ch'.isOver = true := by
  rcases hreceiving : ch.receiving with _ | got | ⟨len, got⟩ | result
  case ended =>
    obtain ⟨hout, hended, _⟩ := SecureChannel.next_of_ended hreceiving hnext
    exact ⟨hout, by simp [SecureChannel.isOver, hended]⟩
  all_goals simp [SecureChannel.isOver, hreceiving] at hover

/-- One connection has changed with the channel to its client. -/
theorem mirrors_conn (hw : ∀ c, Linked serde n c (w c)) (c : ConnId) (wires : Wires) {k : Conn}
    {down : SecureChannel}
    (hdown : DownHolds serde k.writer down wires)
    (hup : UpHolds serde k.running (n.deployed.tasks c).main (n.ups c) wires) :
    Mirrors serde
      { deployed := { n.deployed with system := n.deployed.system.setConn c k }
        downs := Function.update n.downs c down
        ups := n.ups }
      { n.deployed with
        system := (n.deployed.system.extend w).setConn c (k.extend wires.down wires.up) } := by
  have hput := mirrors_put hw c wires hdown hup
  unfold put at hput
  rwa [Function.update_eq_self, Function.update_eq_self] at hput

/-- Messages that the reader of a client has received are in its hands and not in the channel. -/
theorem DownHolds.read {writer : WriterTask} {ch ch' : SecureChannel} {wires : Wires}
    {step : ChannelStep} {out : List Message} (h : DownHolds serde writer ch wires)
    (hreads : step.reads = true)
    (hnext : ch.next serde step = some (ch', out)) :
    ∃ q, wires.down = out ++ q ∧ DownHolds serde writer ch' { wires with down := q } := by
  have hquiet := SecureChannel.quiet_of_reads hreads hnext
  rcases h.holds with hover | hholds
  · obtain ⟨rfl, hover'⟩ := isOver_next hover hnext
    exact ⟨wires.down, rfl, Or.inl hover', hquiet ▸ h.idle, hquiet ▸ h.writing⟩
  · rcases hholds.read hreads hnext with ⟨q, hq, hholds'⟩ | ⟨rfl, hended, _⟩
    · exact ⟨q, hq, Or.inr hholds', hquiet ▸ h.idle, hquiet ▸ h.writing⟩
    · refine ⟨wires.down, rfl, Or.inl ?_, hquiet ▸ h.idle, hquiet ▸ h.writing⟩
      obtain ⟨result, hended⟩ := hended
      simp [SecureChannel.isOver, hended]

/-- A message for the client is begun. -/
theorem DownHolds.send {ch : SecureChannel} {wires : Wires} (h : DownHolds serde .idle ch wires)
    {msg : Message} (hframed : msg.Framed serde) :
    DownHolds serde (.writing msg) (ch.send serde msg) { wires with part := [msg] } := by
  obtain ⟨hpart, hquiet⟩ := h.idle rfl
  refine ⟨?_, nofun, ?_⟩
  · rcases h.holds with hover | hholds
    · exact Or.inl hover
    · rw [hpart] at hholds
      exact Or.inr (hholds.send hquiet hframed)
  · intro msg' hmsg
    cases hmsg
    exact ⟨rfl, ch.quiet_send msg⟩

/-- A message for the client goes on, or has left with its last bytes. -/
theorem DownHolds.write {ch ch' : SecureChannel} {wires : Wires} {step : ChannelStep}
    {out : List Message} {msg : Message} (h : DownHolds serde (.writing msg) ch wires)
    (hwrites : step.reads = false)
    (hnext : ch.next serde step = some (ch', out)) :
    out = [] ∧ (ch'.quiet = false → DownHolds serde (.writing msg) ch' wires) ∧
      (ch'.quiet = true →
        DownHolds serde .idle ch' { wires with down := wires.down ++ [msg], part := [] }) := by
  obtain ⟨hpart, _⟩ := h.writing msg rfl
  have hwriting : ∀ msg', WriterTask.writing msg = .writing msg' → wires.part = [msg'] := by
    intro msg' hmsg
    cases hmsg
    exact hpart
  rcases h.holds with hover | hholds
  · obtain ⟨rfl, hover'⟩ := isOver_next hover hnext
    refine ⟨rfl, fun hbusy => ?_, fun hquiet => ?_⟩
    · exact ⟨Or.inl hover', nofun, fun msg' hmsg => ⟨hwriting msg' hmsg, hbusy⟩⟩
    · exact ⟨Or.inl hover', fun _ => ⟨rfl, hquiet⟩, nofun⟩
  · obtain ⟨rfl, hfinished, hgoing⟩ := hholds.write hwrites hnext
    refine ⟨rfl, fun hbusy => ?_, fun hquiet => ?_⟩
    · exact ⟨Or.inr (hgoing hbusy), nofun, fun msg' hmsg => ⟨hwriting msg' hmsg, hbusy⟩⟩
    · rw [hpart] at hfinished
      exact ⟨Or.inr (hfinished hquiet), fun _ => ⟨rfl, hquiet⟩, nofun⟩

/-- A writer that stops leaves the channel as it is. -/
theorem DownHolds.weaken {writer writer' : WriterTask} {ch : SecureChannel} {wires : Wires}
    (h : DownHolds serde writer ch wires)
    (hwriter : writer' = writer ∨ (∃ cause, writer' = .stopping cause) ∨ writer' = .ended) :
    DownHolds serde writer' ch wires := by
  rcases hwriter with rfl | ⟨cause, rfl⟩ | rfl
  · exact h
  · exact ⟨h.holds, nofun, nofun⟩
  · exact ⟨h.holds, nofun, nofun⟩

/-- Messages that the reader of the server has received are in its hands and not in the channel. -/
theorem UpHolds.read {running : Bool} {main : MainTask} {ch ch' : SecureChannel} {wires : Wires}
    {step : ChannelStep} {out : List Message} (h : UpHolds serde running main ch wires)
    (hreads : step.reads = true) (hnext : ch.next serde step = some (ch', out)) :
    ∃ q, wires.up = out ++ q ∧ UpHolds serde running main ch' { wires with up := q } := by
  have hquiet := SecureChannel.quiet_of_reads hreads hnext
  rcases h.holds with hover | ⟨q, x, hup, hholds, hpart⟩
  · obtain ⟨rfl, hover'⟩ := isOver_next hover hnext
    exact ⟨wires.up, rfl, Or.inl hover', hquiet ▸ h.busy⟩
  · rcases hholds.read hreads hnext with ⟨q', rfl, hholds'⟩ | ⟨rfl, ⟨result, hended⟩, _⟩
    · exact ⟨q' ++ x, by rw [hup, List.append_assoc],
        Or.inr ⟨q', x, rfl, hholds', hquiet ▸ hpart⟩, hquiet ▸ h.busy⟩
    · exact ⟨wires.up, rfl, Or.inl (by simp [SecureChannel.isOver, hended]), hquiet ▸ h.busy⟩

/-- A message for the server is begun by the main task. -/
theorem UpHolds.send {running running' : Bool} {main : MainTask} {ch : SecureChannel} {wires : Wires}
    (h : UpHolds serde running main ch wires) (hquiet : ch.quiet = true) {msg : Message}
    (hframed : msg.Framed serde) :
    UpHolds serde running' .selecting (ch.send serde msg) { wires with up := wires.up ++ [msg] } := by
  refine ⟨?_, fun _ _ => rfl⟩
  rcases h.holds with hover | ⟨q, x, hup, hholds, hpart⟩
  · exact Or.inl hover
  · obtain rfl := hpart hquiet
    refine Or.inr ⟨q, [msg], by simp [hup], hholds.send hquiet hframed, ?_⟩
    intro hquiet'
    cases (ch.quiet_send msg).symm.trans hquiet'

/-- A message for the server goes on. -/
theorem UpHolds.write {running : Bool} {main : MainTask} {ch ch' : SecureChannel} {wires : Wires}
    {step : ChannelStep} {out : List Message} (h : UpHolds serde running main ch wires)
    (hwrites : step.reads = false) (hnext : ch.next serde step = some (ch', out)) :
    out = [] ∧ UpHolds serde running main ch' wires := by
  have hbusy : running = true → ch'.quiet = false → main = .selecting :=
    fun hrunning _ => h.busy hrunning (SecureChannel.busy_of_writes hwrites hnext)
  rcases h.holds with hover | ⟨q, x, hup, hholds, hpart⟩
  · obtain ⟨rfl, hover'⟩ := isOver_next hover hnext
    exact ⟨rfl, Or.inl hover', hbusy⟩
  · obtain ⟨rfl, hfinished, hgoing⟩ := hholds.write hwrites hnext
    rcases hquiet : ch'.quiet with _ | _
    · refine ⟨rfl, Or.inr ⟨q, x, hup, hgoing hquiet, ?_⟩, hbusy⟩
      intro hquiet'
      cases hquiet.symm.trans hquiet'
    · exact ⟨rfl, Or.inr ⟨q ++ x, [], by simp [hup], hfinished hquiet, fun _ => rfl⟩, hbusy⟩

/-- Guards on the steps of the server, and what is passed to `send` can be told from no message. -/
def Guard (serde : SerdeJson) (G : System → Label → Prop) (n : Networked) : NetworkedLabel → Prop
  | .server l => (l.byServer = true → G n.deployed.system l) ∧
      ∀ c msg queue, l = .conn c .recv → (n.conn c).queue = msg :: queue → msg.Framed serde
  | .client c step => ∀ k t, (n.deployed.tasks c).next (n.conn c) step = some (k, t) →
      ∀ msg ∈ k.up.drop (n.conn c).up.length, msg.Framed serde
  | _ => True

/-- The programs with wires of messages, that a networked system is compared with. -/
def plain (n : Networked) (w : ConnId → Wires) : Deployed :=
  { n.deployed with system := n.deployed.system.extend w }

theorem mirrors_down {step : ChannelStep} (hw : ∀ c, Linked serde n c (w c))
    (hnext : n.nextDown serde c step = some n') : Mirrors serde n' (n.plain w) := by
  obtain ⟨⟨ch', out⟩, hstep, h⟩ := Option.bind_eq_some_iff.mp hnext
  obtain ⟨hready, heq⟩ := Option.ite_none_right_eq_some.mp h
  obtain rfl := Option.some.inj heq
  obtain ⟨hdown, hup⟩ := hw c
  rcases hreads : step.reads with _ | _
  · have hwriting : (n.conn c).writer.isWriting = true ∧ ch'.quiet = false := by
      cases step with
      | writeFrame => exact ⟨hready, SecureChannel.busy_of_writeFrame hstep⟩
      | leave count => simpa [downReady] using hready
      | _ => cases hreads
    obtain ⟨hwriting, hbusy⟩ := hwriting
    rcases hwriter : (n.conn c).writer with _ | msg | cause | _
    case writing =>
      rw [hwriter] at hdown
      obtain ⟨rfl, hgoing, _⟩ := hdown.write hreads hstep
      refine mirrors_put_same hw c (w c) ?_ hup ?_
      · show DownHolds serde (n.conn c).writer ch' (w c)
        rw [hwriter]
        exact hgoing hbusy
      · simp [Conn.extend]
    all_goals simp [WriterTask.isWriting, hwriter] at hwriting
  · obtain ⟨q, hq, hdown'⟩ := hdown.read hreads hstep
    refine mirrors_put_same hw c { w c with down := q } hdown' ⟨hup.holds, hup.busy⟩ ?_
    simp [Conn.extend, hq]

theorem mirrors_up {step : ChannelStep} (hw : ∀ c, Linked serde n c (w c))
    (hnext : n.nextUp serde c step = some n') : Mirrors serde n' (n.plain w) := by
  obtain ⟨⟨ch', out⟩, hstep, h⟩ := Option.bind_eq_some_iff.mp hnext
  obtain ⟨_, heq⟩ := Option.ite_none_right_eq_some.mp h
  obtain rfl := Option.some.inj heq
  obtain ⟨hdown, hup⟩ := hw c
  rcases hreads : step.reads with _ | _
  · obtain ⟨rfl, hup'⟩ := hup.write hreads hstep
    refine mirrors_put_same hw c (w c) hdown hup' ?_
    simp [Conn.extend]
  · obtain ⟨q, hq, hup'⟩ := hup.read hreads hstep
    refine mirrors_put_same hw c { w c with up := q }
      ⟨hdown.holds, hdown.idle, hdown.writing⟩ hup' ?_
    simp [Conn.extend, hq]

/-- A step of a client's tasks in the programs with wires of messages. -/
theorem next_plain {step : TaskStep} {k : Conn} {t : ClientTasks}
    (h : (n.deployed.tasks c).next ((n.conn c).extend (w c).down (w c).up) step = some (k, t)) :
    (n.plain w).next (.client c step) = some
      { system := (n.deployed.system.extend w).setConn c k
        tasks := Function.update n.deployed.tasks c t } := by
  show ((n.deployed.tasks c).next ((n.conn c).extend (w c).down (w c).up) step).map _ = _
  rw [h]
  rfl

theorem mirrors_drain (hw : ∀ c, Linked serde n c (w c)) (hnext : n.nextDrain serde c = some n') :
    ∃ step d', (n.plain w).next (.client c step) = some d' ∧ Mirrors serde n' d' := by
  unfold nextDrain at hnext
  split at hnext
  · rename_i hwaiting
    obtain ⟨⟨k, t⟩, htask, rfl⟩ := Option.map_eq_some_iff.mp hnext
    obtain ⟨hdown, hup⟩ := hw c
    rcases hdown.holds with hover | hholds
    · simp [SecureChannel.isOver, hwaiting] at hover
    · obtain ⟨q, hq, hholds'⟩ := hholds.drain hwaiting
      obtain ⟨hwriter, hrunning, hmain, htask'⟩ := ClientTasks.extend_buffered htask q (w c).up
      rw [← hq] at htask'
      refine ⟨_, _, next_plain htask', mirrors_put hw c { w c with down := q } ?_ ?_⟩
      · rw [hwriter]
        exact ⟨Or.inr hholds', hdown.idle, hdown.writing⟩
      · rw [hrunning, hmain]
        exact ⟨hup.holds, hup.busy⟩
  · cases hnext

theorem mirrors_fails (hw : ∀ c, Linked serde n c (w c)) (hrunning : (n.conn c).running = true)
    (hbusy : (n.ups c).quiet = false) :
    ∃ d', (n.plain w).next (.client c .signal) = some d' ∧
      Mirrors serde (n.put c (n.conn c).stopClient (n.deployed.tasks c) (n.downs c) (n.ups c)) d' := by
  obtain ⟨hdown, hup⟩ := hw c
  have hmain := hup.busy hrunning hbusy
  have htask : (n.deployed.tasks c).next ((n.conn c).extend (w c).down (w c).up) .signal
      = some ((n.conn c).stopClient.extend (w c).down (w c).up, n.deployed.tasks c) := by
    simp [ClientTasks.next, Conn.extend, hrunning, hmain, Conn.stopClient]
  refine ⟨_, next_plain htask, mirrors_put hw c (w c) ?_ ?_⟩
  · exact ⟨hdown.holds, hdown.idle, hdown.writing⟩
  · exact ⟨hup.holds, by simp [Conn.stopClient]⟩

theorem mirrors_client {step : TaskStep} (hw : ∀ c, Linked serde n c (w c))
    (hframed : ∀ k t, (n.deployed.tasks c).next (n.conn c) step = some (k, t) →
      ∀ msg ∈ k.up.drop (n.conn c).up.length, msg.Framed serde)
    (hnext : n.nextClient serde c step = some n') :
    ∃ d', (n.plain w).next (.client c step) = some d' ∧ Mirrors serde n' d' := by
  unfold nextClient at hnext
  split at hnext
  · rename_i hready
    obtain ⟨⟨k, t⟩, htask, rfl⟩ := Option.map_eq_some_iff.mp hnext
    obtain ⟨hdown, hup⟩ := hw c
    have hstep := ClientTasks.step_of_next htask
    have hplain : step.Plain := by
      cases step <;> simp_all [ready, TaskStep.Plain]
    have hmain : step.byMain = true → (n.ups c).quiet = true := by
      cases step <;> simp_all [ready, TaskStep.byMain]
    have hwriter : k.writer = (n.conn c).writer := hstep.writer_eq
    have hdown' : DownHolds serde k.writer (n.downs c) (w c) := hwriter ▸ hdown
    rcases hstep.extend hplain (w c).down (w c).up with
      ⟨hsame, htask'⟩ | ⟨msg, hsome, hwrites, hselects, htask'⟩
    · refine ⟨_, next_plain htask', ?_⟩
      have hback : ({ k with up := (n.conn c).up } : Conn) = k := by rw [← hsame]
      simp only [hsame, List.drop_length, hback]
      refine mirrors_put hw c (w c) hdown' ⟨hup.holds, ?_⟩
      intro hrunning hbusy
      rcases hby : step.byMain with _ | _
      · obtain ⟨hmain', hrunning'⟩ := hstep.main_eq hby
        rw [hmain']
        exact hup.busy (hrunning' ▸ hrunning) hbusy
      · cases hbusy.symm.trans (hmain hby)
    · have hby : step.byMain = true := by
        cases step <;> first | rfl | cases hwrites
      have hdrop : k.up.drop (n.conn c).up.length = [msg] := by rw [hsome, List.drop_left]
      have hfine := hframed k t htask msg (by rw [hdrop]; exact List.mem_singleton_self _)
      refine ⟨_, next_plain htask', ?_⟩
      simp only [hdrop]
      refine mirrors_put hw c { w c with up := (w c).up ++ [msg] }
        ⟨hdown'.holds, hdown'.idle, hdown'.writing⟩ ?_
      rw [hselects]
      exact hup.send (hmain hby) hfine
  · cases hnext

/-- A step of the server in the programs with wires of messages. -/
theorem next_plain_server {l : Label} {s : System} (hserver : l.byServer = true)
    (h : (n.deployed.system.extend w).next l = some s) :
    (n.plain w).next (.server l)
      = some { system := s, tasks := Deployed.started n.deployed.tasks l } := by
  show (if l.byServer then ((n.deployed.system.extend w).next l).map _ else none) = _
  rw [if_pos hserver, h]
  rfl

/-- What a step of the server does with the writers of the connections, beside their own `recv` and
`written`, and with the clients. -/
theorem writer_of_step {s s' : System} {l : Label} (h : s.Step l s') (hserver : l.byServer = true)
    (hnew : ∀ c config clipboard now₁ now₂, l ≠ .accept c config clipboard now₁ now₂)
    (hrecv : ∀ c, l ≠ .conn c .recv) (hwritten : ∀ c, l ≠ .conn c .written) (c : ConnId) :
    ((s'.conns c).writer = (s.conns c).writer ∨ (∃ cause, (s'.conns c).writer = .stopping cause) ∨
      (s'.conns c).writer = .ended) ∧ (s'.conns c).running = (s.conns c).running := by
  have hone : ∀ {a : ConnId} {k : Conn}, (k.writer = (s.conns a).writer ∨
      (∃ cause, k.writer = .stopping cause) ∨ k.writer = .ended) ∧ k.running = (s.conns a).running →
      ∀ b, (((s.setConn a k).conns b).writer = (s.conns b).writer ∨
        (∃ cause, ((s.setConn a k).conns b).writer = .stopping cause) ∨
        ((s.setConn a k).conns b).writer = .ended) ∧
        ((s.setConn a k).conns b).running = (s.conns b).running := fun hk =>
    System.setConn_forall (P := fun k k' => (k'.writer = k.writer ∨
      (∃ cause, k'.writer = .stopping cause) ∨ k'.writer = .ended) ∧ k'.running = k.running)
      (fun _ => ⟨Or.inl rfl, rfl⟩) hk
  cases h with
  | accept _ _ => exact absurd rfl (hnew _ _ _ _ _)
  | @conn a step k hstep =>
      refine hone ?_ c
      cases hstep with
      | recv _ _ => exact absurd rfl (hrecv a)
      | written _ => exact absurd rfl (hwritten a)
      | failed _ => exact ⟨Or.inr (Or.inl ⟨_, rfl⟩), rfl⟩
      | send _ => cases hserver
      | batch _ _ => cases hserver
      | stop _ => cases hserver
  | stopWriter _ _ _ =>
      refine hone ?_ c
      exact ⟨Or.inr (Or.inl ⟨_, rfl⟩), rfl⟩
  | emit hemits =>
      refine hone ?_ c
      cases hemits with
      | writerReport _ => exact ⟨Or.inr (Or.inr rfl), rfl⟩
      | _ => exact ⟨Or.inl rfl, rfl⟩
  | capture => exact ⟨Or.inl rfl, rfl⟩
  | copied => exact ⟨Or.inl rfl, rfl⟩
  | @serve env e _ _ =>
      obtain ⟨more, hc, _⟩ := Server.appends_handle env s.server s.conns e.event c
      refine ⟨Or.inl ?_, ?_⟩
      · show ((s.server.handle env s.conns e.event).2 c).writer = _
        rw [hc]
      · show ((s.server.handle env s.conns e.event).2 c).running = _
        rw [hc]

theorem system_of_server {l : Label} {d' : Deployed} (h : d.next (.server l) = some d') :
    ∃ s, d.system.next l = some s ∧ d' = { system := s, tasks := Deployed.started d.tasks l } := by
  obtain ⟨_, hd⟩ := Option.ite_none_right_eq_some.mp h
  obtain ⟨s, hs, rfl⟩ := Option.map_eq_some_iff.mp hd
  exact ⟨s, hs, rfl⟩

/-- A step of the server that touches no wire. -/
theorem mirrors_untouched {l : Label} {d' : Deployed} (hw : ∀ c, Linked serde n c (w c))
    (hserver : l.byServer = true)
    (hnew : ∀ c config clipboard now₁ now₂, l ≠ .accept c config clipboard now₁ now₂)
    (hrecv : ∀ c, l ≠ .conn c .recv) (hwritten : ∀ c, l ≠ .conn c .written)
    (hnext : n.deployed.next (.server l) = some d') :
    ∃ d, (n.plain w).next (.server l) = some d ∧ Mirrors serde { n with deployed := d' } d := by
  obtain ⟨s, hs, rfl⟩ := system_of_server hnext
  refine ⟨_, next_plain_server hserver (System.next_extend hs hserver hnew hwritten w), w, ?_, rfl⟩
  have hsame : Deployed.started n.deployed.tasks l = n.deployed.tasks := by
    unfold Deployed.started
    split
    · exact absurd rfl (hnew _ _ _ _ _)
    · rfl
  intro c
  obtain ⟨hdown, hup⟩ := hw c
  obtain ⟨hwriter, hrunning⟩ :=
    writer_of_step (System.step_of_next hs) hserver hnew hrecv hwritten c
  refine ⟨hdown.weaken hwriter, ?_⟩
  show UpHolds serde (s.conns c).running (Deployed.started n.deployed.tasks l c).main (n.ups c) (w c)
  rw [hrunning, hsame]
  exact hup

theorem mirrors_server {l : Label} (hw : ∀ c, Linked serde n c (w c)) (hserver : l.byServer = true)
    (hframed : ∀ c msg queue, l = .conn c .recv → (n.conn c).queue = msg :: queue → msg.Framed serde)
    (hnext : n.nextServer serde links l = some n') :
    ∃ d, (n.plain w).next (.server l) = some d ∧ Mirrors serde n' d := by
  unfold nextServer at hnext
  split at hnext
  · rename_i c config clipboard now₁ now₂
    obtain ⟨d', hd', rfl⟩ := Option.map_eq_some_iff.mp hnext
    obtain ⟨s, hs, rfl⟩ := system_of_server hd'
    cases System.step_of_next hs with
    | @accept _ _ _ _ _ position habsent hposition =>
        have hphase : ((n.deployed.system.extend w).conns c).phase = .absent := habsent
        have hnamed : (n.deployed.system.extend w).server.config.clients.lookup config.name
            = some position := hposition
        have haccept : (n.deployed.system.extend w).next (.accept c config clipboard now₁ now₂)
            = some ((n.deployed.system.extend w).setConn c (Conn.accepted n.deployed.system.server.config
                config position clipboard now₁ now₂)) := by
          simp only [System.next, hphase, hnamed]
          rfl
        refine ⟨_, next_plain_server hserver haccept, ?_⟩
        exact mirrors_put hw c ⟨[], [], []⟩
          ⟨Or.inr (SecureChannel.holds_new (links c).downwards _), fun _ => ⟨rfl, rfl⟩, by simp [Conn.accepted]⟩
          ⟨Or.inr ⟨[], [], rfl, SecureChannel.holds_new (links c).upwards _, fun _ => rfl⟩,
            fun _ _ => rfl⟩
  · rename_i c
    split at hnext
    · rename_i msg queue hqueue
      obtain ⟨d', hd', rfl⟩ := Option.map_eq_some_iff.mp hnext
      obtain ⟨s, hs, rfl⟩ := system_of_server hd'
      obtain ⟨hdown, hup⟩ := hw c
      obtain ⟨k, hk, rfl⟩ := Option.map_eq_some_iff.mp hs
      cases Conn.step_of_next hk with
      | recv hidle hqueue' =>
          cases hqueue.symm.trans hqueue'
          have hidle' : (n.conn c).writer = .idle := hidle
          rw [hidle'] at hdown
          refine ⟨_, next_plain_server hserver (System.next_extend hs rfl (by simp) (by simp) w), ?_⟩
          rw [← System.extend_setConn]
          exact mirrors_conn hw c { w c with part := [msg] }
            (hdown.send (hframed c msg queue rfl hqueue)) ⟨hup.holds, hup.busy⟩
    · cases hnext
  · rename_i c
    split at hnext
    · rename_i msg hwriter hpending
      obtain ⟨⟨ch', out⟩, hstep, rfl⟩ := Option.map_eq_some_iff.mp hnext
      obtain ⟨hdown, hup⟩ := hw c
      rw [hwriter] at hdown
      have hquiet : ch'.quiet = true := by
        simp only [SecureChannel.next] at hstep
        split at hstep <;> cases hstep
        simp [SecureChannel.quiet, hpending]
      have hwritten : (n.deployed.system.extend w).next (.conn c .written)
          = some ((n.deployed.system.extend w).setConn c
              ({ n.conn c with writer := .idle }.extend ((w c).down ++ [msg]) (w c).up)) := by
        have hwriter' : ((n.deployed.system.extend w).conns c).writer = .writing msg := hwriter
        simp only [System.next, Conn.next, hwriter', Option.map_some, Conn.extend]
        rw [← List.append_assoc]
        rfl
      refine ⟨_, next_plain_server hserver hwritten, ?_⟩
      have hput := mirrors_put hw c { w c with down := (w c).down ++ [msg], part := [] }
        (k := { n.conn c with writer := .idle }) (t := n.deployed.tasks c)
        ((hdown.write rfl hstep).2.2 hquiet) ⟨hup.holds, hup.busy⟩
      rwa [Function.update_eq_self] at hput
    · cases hnext
  · rename_i c
    split at hnext
    · obtain ⟨d', hd', rfl⟩ := Option.map_eq_some_iff.mp hnext
      exact mirrors_untouched hw hserver (by simp) (by simp) (by simp) hd'
    · cases hnext
  · rename_i hnew hrecv hwritten _
    obtain ⟨d', hd', rfl⟩ := Option.map_eq_some_iff.mp hnext
    exact mirrors_untouched hw hserver hnew hrecv hwritten hd'

/-- A guard that does not look at the wires. -/
def Deaf (G : System → Label → Prop) : Prop := ∀ s w l, G s l → G (System.extend w s) l

/-- Nothing is behind the wires at first. -/
theorem mirrors_init (h : (lts serde links config).init n) : Mirrors serde n n.deployed := by
  obtain ⟨⟨⟨clipboard, now, hsystem⟩, _⟩, hdowns, hups⟩ := h
  refine ⟨fun _ => ⟨[], [], []⟩, ?_, ?_⟩
  · intro c
    have hconn : n.conn c = Conn.absent := by
      unfold conn
      rw [hsystem]
      rfl
    refine ⟨?_, ?_⟩
    · rw [hconn, hdowns c]
      exact ⟨Or.inr (SecureChannel.holds_new (links c).downwards _), fun _ => ⟨rfl, rfl⟩, nofun⟩
    · rw [hconn, hups c]
      refine ⟨Or.inr ⟨[], [], rfl, SecureChannel.holds_new (links c).upwards _, fun _ => rfl⟩, ?_⟩
      intro hrunning
      cases hrunning
  · have hconns :
        n.deployed.system.conns.extend (fun _ => ⟨[], [], []⟩) = n.deployed.system.conns := by
      funext c
      simp [Conns.extend, Conn.extend]
    show _ = Deployed.mk { n.deployed.system with conns := _ } _
    rw [hconns]

/-- The programs over encrypted bytes do nothing that the programs with wires of messages do not. -/
theorem networked_simulates (serde : SerdeJson) (links : ConnId → Link) (config : ServerConfig)
    (hG : Deaf G) :
    LTS.Simulates (Networked.lts serde links config) (Guard serde G) NetworkedLabel.shown
      (Deployed.lts config) (Deployed.Guard G) DeployedLabel.shown (Mirrors serde) := by
  constructor
  · intro n hinit
    exact ⟨n.deployed, hinit.1, mirrors_init hinit⟩
  · rintro n d a n' ⟨w, hw, rfl⟩ hguard hnext
    cases a with
    | server l =>
        obtain ⟨hserver, hnext⟩ := Option.ite_none_right_eq_some.mp hnext
        obtain ⟨d', hd', hmirrors⟩ := mirrors_server hw hserver hguard.2 hnext
        exact ⟨[.server l], d', .single (fun _ => hG _ _ _ (hguard.1 hserver)) hd', rfl, hmirrors⟩
    | client c step =>
        obtain ⟨d', hd', hmirrors⟩ := mirrors_client hw hguard hnext
        exact ⟨[.client c step], d', .single trivial hd', rfl, hmirrors⟩
    | down c step => exact ⟨[], _, .nil _, rfl, mirrors_down hw hnext⟩
    | up c step => exact ⟨[], _, .nil _, rfl, mirrors_up hw hnext⟩
    | drain c =>
        obtain ⟨step, d', hd', hmirrors⟩ := mirrors_drain hw hnext
        exact ⟨[.client c step], d', .single trivial hd', rfl, hmirrors⟩
    | fails c =>
        obtain ⟨⟨hrunning, hbusy⟩, heq⟩ := Option.ite_none_right_eq_some.mp hnext
        obtain rfl := Option.some.inj heq
        obtain ⟨d', hd', hmirrors⟩ := mirrors_fails hw hrunning (by simpa using hbusy)
        exact ⟨[.client c .signal], d', .single trivial hd', rfl, hmirrors⟩

/-- Every message that is passed to `send` can be told from what is no message. -/
def Framing (serde : SerdeJson) (n : Networked) (a : NetworkedLabel) : Prop :=
  Guard serde (fun _ _ => True) n a

/-- Every run of the programs over encrypted bytes is, step of the server for step of the server, a run
of the system whose wires are lists of messages and whose clients take whole batches. -/
theorem bytes_refine (serde : SerdeJson) (links : ConnId → Link) (config : ServerConfig)
    {n₀ : Networked} {ls : List NetworkedLabel} (hinit : (lts serde links config).init n₀)
    (h : LTS.Steps (lts serde links config) (Framing serde) n₀ ls n) :
    ∃ ls' s, LTS.Steps (System.lts config) (fun _ l => l.Honest) n₀.deployed.system ls' s ∧
      ls'.flatMap Label.shown = ls.flatMap NetworkedLabel.shown ∧
      ∃ d, n.Mirrors serde d ∧ d.Mirrors s := by
  have hsteps : LTS.Steps (lts serde links config) (Guard serde fun _ l => l.Honest) n₀ ls n := by
    refine h.weaken fun n a hguard => ?_
    cases a with
    | server l => exact ⟨Deployed.guard_honest n.deployed (.server l), hguard.2⟩
    | client c step => exact hguard
    | _ => trivial
  have hboth := (networked_simulates serde links config (G := fun _ l => l.Honest)
    fun _ _ _ honest => honest).trans (Deployed.deployed_simulates config Deployed.blind_honest)
  have hstart : n₀.deployed.Mirrors n₀.deployed.system :=
    ⟨_, fun c => by rw [hinit.1.2]; rfl, (Deployed.mirror_of_new hinit.1.2).symm⟩
  exact hboth.steps hsteps ⟨_, mirrors_init hinit, hstart⟩

theorem deaf_oneEach : Deaf System.OneEach := by
  intro s w l h
  cases l <;> exact h

/-- Over encrypted bytes, too, whoever has control is the server's active client. -/
theorem active_of_control (hsized : config.Sized)
    (h : (lts serde links config).Reach (Guard serde System.OneEach) n) {name : String}
    {client : ClientInfo ConnId}
    (hclient : n.deployed.system.server.clients.lookup name = some client)
    (hwriter : (n.conn client.tx).writer ≠ .ended)
    (hactive : (n.conn client.tx).client.state.active = true) :
    n.deployed.system.server.activeClient = some name := by
  obtain ⟨d, hreach, w, _, rfl⟩ := (networked_simulates serde links config deaf_oneEach).reach h
  exact Deployed.active_is_holder hsized hreach (d := n.plain w) hclient hwriter hactive

/-- Whatever pieces the encrypted bytes come in, and wherever connections break: at most one of the live
clients acts. Where names are distinct, a program has control, and hands input to its virtual devices,
only while the server takes its client for the active one. -/
theorem one_client_acts (serde : SerdeJson) (links : ConnId → Link) (config : ServerConfig)
    (hsized : config.Sized) (n : Networked)
    (h : (lts serde links config).Reach (Guard serde System.OneEach) n) :
    (∀ name client, n.deployed.system.server.clients.lookup name = some client →
      (n.conn client.tx).writer ≠ .ended →
      ((n.conn client.tx).client.state.active = true →
        n.deployed.system.server.activeClient = some name) ∧
      ∀ step n', Guard serde System.OneEach n (.client client.tx step) →
        n.next serde links (.client client.tx step) = some n' →
        (n'.conn client.tx).client.injector.emitted ≠ (n.conn client.tx).client.injector.emitted →
        n.deployed.system.server.activeClient = some name) ∧
    (∀ name₁ client₁ name₂ client₂,
      n.deployed.system.server.clients.lookup name₁ = some client₁ →
      (n.conn client₁.tx).writer ≠ .ended →
      n.deployed.system.server.clients.lookup name₂ = some client₂ →
      (n.conn client₂.tx).writer ≠ .ended →
      (n.conn client₁.tx).client.state.active = true →
      (n.conn client₂.tx).client.state.active = true → name₁ = name₂) := by
  refine ⟨?_, ?_⟩
  · intro name client hclient hwriter
    refine ⟨active_of_control hsized h hclient hwriter, ?_⟩
    intro step n' hguard hnext hinjects
    obtain ⟨_, hreach, w, hw, rfl⟩ := (networked_simulates serde links config deaf_oneEach).reach h
    obtain ⟨d', hd', w', _, rfl⟩ := mirrors_client hw hguard hnext
    exact Deployed.injects_is_holder hsized hreach (d := n.plain w) hclient hwriter hd' hinjects
  · intro name₁ client₁ name₂ client₂ h₁ hw₁ h₂ hw₂ ha₁ ha₂
    have heq := (active_of_control hsized h h₁ hw₁ ha₁).symm.trans
      (active_of_control hsized h h₂ hw₂ ha₂)
    exact Option.some.inj heq

/-! ## A heartbeat -/

/-- Sessions whose ciphertext is the plaintext and a tag. -/
def taggedLink : Link where
  serverSends := taggedSession
  clientReceives := taggedSession
  down := 1
  downwards := inOrder_taggedSession
  clientSends := taggedSession
  serverReceives := taggedSession
  up := 1
  upwards := inOrder_taggedSession

/-- Nobody has connected. -/
def unused : Networked where
  deployed := Deployed.unused
  downs := fun _ => SecureChannel.new taggedSession taggedSession 1
  ups := fun _ => SecureChannel.new taggedSession taggedSession 1

/-- The laptop connects. -/
def connecting : List NetworkedLabel :=
  [.server (.accept 0 laptop ClipboardManager.new 0 0), .server (.emit 0 .announce)]

/-- The laptop is connected, and its registration is queued. -/
def connected : Networked :=
  ((lts emptyObjectSerde (fun _ => taggedLink) Server.leftConfig).exec unused connecting).getD unused

/-- A heartbeat is passed to `send`. -/
def beating : Networked :=
  connected.put 0 (connected.conn 0) (connected.deployed.tasks 0) (connected.downs 0)
    { connected.ups 0 with pending := [Message.heartbeat.encode emptyObjectSerde] }

/-- The frame of the heartbeat leaves in two pieces, and the reader of the server takes it. -/
def crossing : List NetworkedLabel :=
  [.up 0 .writeFrame, .up 0 (.leave 10), .up 0 .call, .up 0 (.arrive 5), .up 0 (.fill 2),
    .up 0 (.leave 15), .up 0 (.fill 3), .up 0 (.arrive 20), .up 0 (.fill 20),
    .server (.emit 0 .readerDeliver)]

theorem exec_connecting :
    (lts emptyObjectSerde (fun _ => taggedLink) Server.leftConfig).exec unused connecting
      = some connected := rfl

theorem exec_crossing :
    ∃ n, (lts emptyObjectSerde (fun _ => taggedLink) Server.leftConfig).exec beating crossing = some n ∧
      n.deployed.system.events.map Event.source = [.handler 0, .reader 0] :=
  ⟨_, rfl, rfl⟩

theorem next_beating :
    (lts emptyObjectSerde (fun _ => taggedLink) Server.leftConfig).next connected
      (.client 0 (.heartbeat true)) = some beating := by
  unfold beating
  rw [← Line.chunks_heartbeat]
  rfl

theorem bytes_refine_crossing :
    ∃ n : Networked, n.deployed.system.events.map Event.source = [.handler 0, .reader 0] ∧
      ∃ ls' s, LTS.Steps (System.lts Server.leftConfig) (fun _ l => l.Honest) unused.deployed.system
        ls' s ∧
        ls'.flatMap Label.shown = [.accept 0 laptop ClipboardManager.new 0 0, .emit 0 .announce,
          .emit 0 .readerDeliver] ∧
        ∃ d, n.Mirrors emptyObjectSerde d ∧ d.Mirrors s := by
  obtain ⟨n, hexec, hevents⟩ := exec_crossing
  have hinit : (lts emptyObjectSerde (fun _ => taggedLink) Server.leftConfig).init unused :=
    ⟨⟨⟨ClipboardManager.new, 0, rfl⟩, rfl⟩, fun _ => rfl, fun _ => rfl⟩
  have hconnect : LTS.Steps (lts emptyObjectSerde (fun _ => taggedLink) Server.leftConfig)
      (Framing emptyObjectSerde) unused connecting connected :=
    LTS.steps_of_exec exec_connecting
      ⟨⟨fun _ => trivial, nofun⟩, ⟨fun _ => trivial, nofun⟩, trivial⟩
  have hbegin : Framing emptyObjectSerde connected (.client 0 (.heartbeat true)) := by
    intro k t hnext msg hmsg
    cases hnext
    rw [List.mem_singleton.mp hmsg]
    exact Message.framed rfl (by decide)
  have hcross : LTS.Steps (lts emptyObjectSerde (fun _ => taggedLink) Server.leftConfig)
      (Framing emptyObjectSerde) beating crossing n :=
    LTS.steps_of_exec hexec ⟨trivial, trivial, trivial, trivial, trivial, trivial, trivial, trivial,
      trivial, ⟨fun _ => trivial, nofun⟩, trivial⟩
  refine ⟨n, hevents, ?_⟩
  exact bytes_refine emptyObjectSerde (fun _ => taggedLink) Server.leftConfig hinit
    (hconnect.append (.cons hbegin next_beating hcross))

/-! ## A hand-over -/

/-- `serde_json` on the `SwitchToClient` below. -/
def switchSerde : SerdeJson := .ofValues [(Message.switchToClient 700 300).payload]

example : (Message.switchToClient 700 300).payload.text =
    "\x7b\"entry_x\":700,\"entry_y\":300\x7d".toUTF8.toList := by
  decide +kernel

/-- The laptop is told to take control. -/
def told : Networked :=
  ((lts switchSerde (fun _ => taggedLink) Server.leftConfig).exec unused
    (System.handOver.map .server)).getD unused

/-- Its writer has taken the message and passed it to `send`. -/
def switching : Networked where
  deployed :=
    { told.deployed with
      system := told.deployed.system.setConn 0
        { told.conn 0 with writer := .writing (Message.switchToClient 700 300), queue := [] } }
  downs := Function.update told.downs 0
    { told.downs 0 with pending := [(Message.switchToClient 700 300).encode switchSerde] }
  ups := told.ups

/-- The frame leaves and arrives, and the main task of the laptop applies the message. -/
def switched : List NetworkedLabel :=
  [.down 0 .writeFrame, .down 0 .call, .server (.conn 0 .written), .down 0 (.arrive 52),
    .down 0 (.fill 2), .down 0 (.fill 50), .client 0 .received, .client 0 .passed, .client 0 (.recv 5)]

theorem exec_told :
    (lts switchSerde (fun _ => taggedLink) Server.leftConfig).exec unused
      (System.handOver.map .server) = some told := rfl

theorem chunks_switch :
    Lib.chunks MAX_CHUNK ((Message.switchToClient 700 300).encode switchSerde)
      = [(Message.switchToClient 700 300).encode switchSerde] := by
  rw [Lib.chunks_of_ne_nil (by decide) (SecureChannel.encode_ne_nil _),
    List.take_of_length_le (by decide), List.drop_of_length_le (by decide), Lib.chunks_nil]

theorem next_switching :
    (lts switchSerde (fun _ => taggedLink) Server.leftConfig).next told (.server (.conn 0 .recv))
      = some switching := by
  unfold switching
  rw [← chunks_switch]
  rfl

theorem exec_switched :
    ∃ n client,
      (lts switchSerde (fun _ => taggedLink) Server.leftConfig).exec switching switched = some n ∧
      n.deployed.system.server.clients.lookup "laptop" = some client ∧
      (n.conn client.tx).writer = .idle ∧ (n.conn client.tx).client.state.active = true :=
  ⟨_, _, rfl, rfl, rfl, rfl⟩

theorem one_client_acts_switched :
    ∃ n : Networked, ∃ client, n.deployed.system.server.clients.lookup "laptop" = some client ∧
      (n.conn client.tx).client.state.active = true ∧
      n.deployed.system.server.activeClient = some "laptop" := by
  obtain ⟨n, client, hexec, hclient, hidle, hactive⟩ := exec_switched
  have htold : LTS.Steps (lts switchSerde (fun _ => taggedLink) Server.leftConfig)
      (Guard switchSerde System.OneEach) unused (System.handOver.map .server) told :=
    LTS.steps_of_exec exec_told ⟨⟨fun _ _ h => absurd rfl h, nofun⟩, ⟨fun _ => trivial, nofun⟩,
      ⟨fun _ => trivial, nofun⟩, ⟨fun _ => trivial, nofun⟩, ⟨fun _ => trivial, nofun⟩, trivial⟩
  have hbegin : Guard switchSerde System.OneEach told (.server (.conn 0 .recv)) := by
    refine ⟨fun _ => trivial, ?_⟩
    intro c msg queue hl hqueue
    cases hl
    cases hqueue
    exact Message.framed rfl (by decide)
  have hswitched : LTS.Steps (lts switchSerde (fun _ => taggedLink) Server.leftConfig)
      (Guard switchSerde System.OneEach) switching switched n := by
    refine LTS.steps_of_exec hexec ⟨trivial, trivial, ⟨fun _ => trivial, nofun⟩, trivial, trivial,
      trivial, ?_, ?_, ?_, trivial⟩
    all_goals
      intro k t hnext msg hmsg
      cases hnext
      cases hmsg
  have hacts := one_client_acts switchSerde (fun _ => taggedLink) Server.leftConfig
    ⟨by decide, by decide⟩ n
      ⟨unused, _, ⟨⟨⟨ClipboardManager.new, 0, rfl⟩, rfl⟩, fun _ => rfl, fun _ => rfl⟩,
        htold.append (.cons hbegin next_switching hswitched)⟩
  have hwriter : (n.conn client.tx).writer ≠ .ended := by simp [hidle]
  exact ⟨n, client, hclient, hactive, (hacts.1 "laptop" client hclient hwriter).1 hactive⟩

end Networked

end Bluecross
