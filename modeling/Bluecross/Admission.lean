/-
# Bluecross.Admission — how a peer becomes a registered client.

`handleNewConnection` is the handler of the source up to the point where it spawns the writer: the
secure handshake, the first message, its fields, the look-up of the name, and the ack. What the
transport and the clock do at each step is an `Arrival`; the bytes are those of the socket under the
secure reader, so any peer is one. What comes after that point is the system's: it queues `NewClient`
and spawns the reader, while the writer already runs.

The `Listener` puts the two together. A connection is handled once; only if it is admitted does it
enter the system, and of its events `NewClient` is queued first (`newClient_first`): the handler holds
the sender until then, so the writer has nothing to write and no reason to stop, and there is no
reader yet. Once the event loop is gone nobody queues anything any more, and a run ends.
-/
import Bluecross.ClientControl
import Bluecross.Wire
import Bluecross.Wiring

namespace Bluecross

open Lib (LTS)

/-- What happens to one connection while it is handled. -/
structure Arrival where
  addr : String
  /-- The outcome of the secure handshake; `none` when it times out. -/
  secure : Option (Except Error (SecureReader × SecureWriter))
  /-- The first message does not come in time. -/
  timedOut : Bool
  /-- Whether the ack can be written to the socket. -/
  written : Except Error Unit
  flushed : Except Error Unit

/-- What the handler goes on with. -/
structure Admitted where
  name : String
  position : ScreenPosition
  screenWidth : Int32
  screenHeight : Int32
  reader : ProtocolReader SecureReader
  writer : ProtocolWriter

namespace Arrival

variable (serde : SerdeJson) (config : ServerConfig)

/-- The encrypted channel, or its failure or timeout. -/
def secureChannel (a : Arrival) : Except Error (SecureReader × SecureWriter) :=
  match a.secure with
  | some res => res
  | none => .error ("secure handshake timed out for " ++ a.addr)

/-- The application handshake's message. -/
def firstMessage (a : Arrival) (reader : ProtocolReader SecureReader) :
    Except Error (Message × ProtocolReader SecureReader) :=
  if a.timedOut then .error ("application handshake timed out for " ++ a.addr)
  else
    match reader.receive serde with
    | (.error e, _) => .error e
    | (.ok none, _) => .error "Connection closed during handshake"
    | (.ok (some msg), reader) => .ok (msg, reader)

/-- The ack is encrypted, written and flushed. -/
def acknowledge (a : Arrival) (writer : ProtocolWriter) (position : ScreenPosition) :
    Except Error ProtocolWriter := do
  let writer ← writer.send serde
    (Message.handshakeAck position.asStr config.screenWidth config.screenHeight)
  a.written
  a.flushed
  return writer

/-- What the handler makes of a connection, once whatever it waits for has come or failed. -/
def handleNewConnection (a : Arrival) : Except Error Admitted := do
  let (secureReader, secureWriter) ← a.secureChannel
  let reader := ProtocolReader.new secureReader
  let writer := ProtocolWriter.new secureWriter
  let (msg, reader) ← a.firstMessage serde reader
  if msg.msgType ≠ .handshake then .error ("Invalid handshake from " ++ a.addr)
  else
    match (msg.payload.get "name").bind Value.asStr with
    | none => .error "Missing client name"
    | some clientName =>
        match config.clients.lookup clientName with
        | none => .error ("Unknown client '" ++ clientName ++ "' from " ++ a.addr)
        | some position =>
            let writer ← a.acknowledge serde config writer position
            return {
              name := clientName
              position := position
              screenWidth := (msg.payload.i64Or "screen_width" 1920).toInt32
              screenHeight := (msg.payload.i64Or "screen_height" 1080).toInt32
              reader := reader
              writer := writer }

/-- What it takes to be admitted. -/
structure Admits (a : Arrival) (adm : Admitted) : Prop where
  /-- The secure handshake succeeded, and the first message decoded has the right type and name. -/
  greeted : ∃ secureReader secureWriter msg, a.secure = some (.ok (secureReader, secureWriter)) ∧
    a.timedOut = false ∧
    (ProtocolReader.new secureReader).receive serde = (.ok (some msg), adm.reader) ∧
    msg.msgType = .handshake ∧ (msg.payload.get "name").bind Value.asStr = some adm.name ∧
    adm.screenWidth = (msg.payload.i64Or "screen_width" 1920).toInt32 ∧
    adm.screenHeight = (msg.payload.i64Or "screen_height" 1080).toInt32 ∧
    (ProtocolWriter.new secureWriter).send serde (Message.handshakeAck adm.position.asStr
      config.screenWidth config.screenHeight) = .ok adm.writer
  configured : config.clients.lookup adm.name = some adm.position
  written : a.written = .ok ()
  flushed : a.flushed = .ok ()

variable {serde config} {a : Arrival} {adm : Admitted}

theorem secureChannel_eq_ok {channel : SecureReader × SecureWriter} :
    a.secureChannel = .ok channel ↔ a.secure = some (.ok channel) := by
  unfold secureChannel
  cases a.secure with
  | none => exact ⟨nofun, nofun⟩
  | some res => exact ⟨fun h => congrArg some h, fun h => Option.some.inj h⟩

theorem acknowledge_eq_ok {writer writer' : ProtocolWriter} {position : ScreenPosition} :
    a.acknowledge serde config writer position = .ok writer' ↔
      writer.send serde (Message.handshakeAck position.asStr config.screenWidth config.screenHeight)
          = .ok writer' ∧ a.written = .ok () ∧ a.flushed = .ok () := by
  unfold acknowledge
  cases writer.send serde
      (Message.handshakeAck position.asStr config.screenWidth config.screenHeight) with
  | error e => exact ⟨nofun, fun h => nomatch h.1⟩
  | ok w =>
      cases a.written with
      | error e => exact ⟨nofun, fun h => nomatch h.2.1⟩
      | ok _ =>
          cases a.flushed with
          | error e => exact ⟨nofun, fun h => nomatch h.2.2⟩
          | ok _ => exact ⟨fun h => ⟨h, rfl, rfl⟩, fun h => h.1⟩

theorem firstMessage_eq_ok {reader reader' : ProtocolReader SecureReader} {msg : Message} :
    a.firstMessage serde reader = .ok (msg, reader') ↔
      a.timedOut = false ∧ reader.receive serde = (.ok (some msg), reader') := by
  unfold firstMessage
  cases a.timedOut with
  | true => exact ⟨nofun, nofun⟩
  | false =>
      rw [if_neg Bool.false_ne_true]
      rcases reader.receive serde with ⟨_ | _ | m, r⟩
      · exact ⟨nofun, nofun⟩
      · exact ⟨nofun, nofun⟩
      · constructor
        · intro h
          cases h
          exact ⟨rfl, rfl⟩
        · rintro ⟨_, h⟩
          cases h
          rfl

/-- The handler admits a connection if and only if nothing goes wrong and the name is configured. -/
theorem handleNewConnection_eq_ok :
    a.handleNewConnection serde config = .ok adm ↔ a.Admits serde config adm := by
  unfold handleNewConnection
  constructor
  · intro h
    obtain ⟨⟨secureReader, secureWriter⟩, hsecure, h⟩ := bind_eq_ok.mp h
    obtain ⟨⟨msg, reader⟩, hfirst, h⟩ := bind_eq_ok.mp h
    obtain ⟨htimely, hreceive⟩ := firstMessage_eq_ok.mp hfirst
    simp only [ne_eq, ite_not] at h
    split at h
    · rename_i htype
      split at h
      · cases h
      · rename_i clientName hname
        split at h
        · cases h
        · rename_i position hposition
          obtain ⟨writer, hack, h⟩ := bind_eq_ok.mp h
          obtain ⟨hsend, hwritten, hflushed⟩ := acknowledge_eq_ok.mp hack
          cases h
          exact ⟨⟨secureReader, secureWriter, msg, secureChannel_eq_ok.mp hsecure, htimely, hreceive,
            htype, hname, rfl, rfl, hsend⟩, hposition, hwritten, hflushed⟩
    · cases h
  · rintro ⟨⟨secureReader, secureWriter, msg, hsecure, htimely, hreceive, htype, hname, hwidth,
      hheight, hsend⟩, hposition, hwritten, hflushed⟩
    refine bind_eq_ok.mpr ⟨_, secureChannel_eq_ok.mpr hsecure, ?_⟩
    refine bind_eq_ok.mpr ⟨_, firstMessage_eq_ok.mpr ⟨htimely, hreceive⟩, ?_⟩
    simp only [htype, ne_eq, not_true_eq_false, if_false, hname, hposition]
    refine bind_eq_ok.mpr ⟨_, acknowledge_eq_ok.mpr ⟨hsend, hwritten, hflushed⟩, ?_⟩
    rw [← hwidth, ← hheight]
    rfl

end Arrival

/-- A connection whose handler has spawned the writer; the peer is any program. -/
def Conn.admitted (adm : Admitted) (peer : Client) : Conn :=
  { Conn.absent with
    phase := .accepted
    name := adm.name
    position := adm.position
    screenWidth := adm.screenWidth
    screenHeight := adm.screenHeight
    client := peer
    running := true }

/-- The system with the connections that have arrived. -/
structure Listener where
  system : System
  arrivals : ConnId → Option Arrival

namespace Listener

/-- What happens at the listener. -/
inductive Action where
  /-- A connection arrives and is handled, up to its end or to the spawn of the writer. -/
  | arrive (c : ConnId) (a : Arrival) (peer : Client)
  /-- A step of the event loop, a task or a peer. -/
  | run (l : Label)

/-- A connection enters the system if it is admitted. -/
def enter (serde : SerdeJson) (s : System) (c : ConnId) (a : Arrival) (peer : Client) : System :=
  match a.handleNewConnection serde s.server.config with
  | .ok adm => s.setConn c (Conn.admitted adm peer)
  | .error _ => s

/-- An arrival takes an identity that no earlier one had, and its peer is not active yet. -/
def next (serde : SerdeJson) (g : Listener) : Action → Option Listener
  | .arrive c a peer =>
      match g.arrivals c, peer.state.active with
      | none, false =>
          some { system := enter serde g.system c a peer
                 arrivals := Function.update g.arrivals c (some a) }
      | _, _ => none
  -- nobody comes in but through the handler
  | .run (.accept ..) => none
  | .run l => (g.system.next l).map fun s => { g with system := s }

/-- The listener of a server without clients. -/
def lts (serde : SerdeJson) (config : ServerConfig) : LTS Listener Action where
  init g := (∃ clipboard now, g.system = System.new config clipboard now) ∧ ∀ c, g.arrivals c = none
  next := next serde

end Listener

/-- The event that a step queues, if it queues one. -/
def System.queues (s : System) : Label → List Event
  | .emit c what => (((s.conns c).emit c what).map Prod.snd).toList
  | .capture ev => [⟨.capture, .input ev⟩]
  | .copied content => [⟨.clipboard, .clipboardChanged content⟩]
  | _ => []

namespace Listener

/-- The log of what was put into the event queue. -/
def note (g : Listener) (act : Action) (log : List Event) : List Event :=
  match act with
  | .run l => log ++ g.system.queues l
  | .arrive .. => log

/-- All events that are queued along a run, in order. -/
def queuedAlong (serde : SerdeJson) (config : ServerConfig) (g : Listener) (acts : List Action) :
    List Event :=
  (lts serde config).record note g acts []

/-- The events of a log that tasks of the connection sent. -/
def sentBy (log : List Event) (c : ConnId) : List Event :=
  log.filter fun e => e.source.conn = some c

/-- The registration that a handler queues. -/
def newClient (c : ConnId) (adm : Admitted) : Event :=
  ⟨.handler c, .newClient adm.name adm.position adm.screenWidth adm.screenHeight c⟩

/-- The first of the events is the connection's registration, and the only one. -/
def Heralded (c : ConnId) (adm : Admitted) (sent : List Event) : Prop :=
  ∃ rest, sent = newClient c adm :: rest ∧ ∀ e ∈ rest, e.source ≠ .handler c

/-! ## The invariant -/

/-- The data of a connection are those it was admitted with. -/
structure Bears (k : Conn) (adm : Admitted) : Prop where
  name : k.name = adm.name
  position : k.position = adm.position
  screenWidth : k.screenWidth = adm.screenWidth
  screenHeight : k.screenHeight = adm.screenHeight

/-- What holds of the connections of a run, given the log of the event queue. -/
structure Kept (serde : SerdeJson) (config : ServerConfig) (g : Listener) (log : List Event) :
    Prop where
  config_eq : g.system.server.config = config
  queue : g.system.events <:+ log
  admitted : ∀ c, (g.system.conns c).phase ≠ .absent →
    ∃ a adm, g.arrivals c = some a ∧ a.Admits serde config adm ∧ Bears (g.system.conns c) adm
  silent : ∀ c, (g.system.conns c).phase ≠ .announced → sentBy log c = []
  heralded : ∀ c, (g.system.conns c).phase = .announced →
    ∀ adm, Bears (g.system.conns c) adm → Heralded c adm (sentBy log c)
  configured : ∀ name client, g.system.server.clients.lookup name = some client →
    config.clients.lookup name = some client.position

variable {serde : SerdeJson} {config : ServerConfig} {g g' : Listener} {log : List Event}

theorem Bears.of_same {k k' : Conn} {adm : Admitted} (h : k.SameIdentity k') :
    Bears k' adm ↔ Bears k adm := by
  constructor
  · intro hk
    exact ⟨h.name.symm.trans hk.name, h.position.symm.trans hk.position,
      h.screenWidth.symm.trans hk.screenWidth, h.screenHeight.symm.trans hk.screenHeight⟩
  · intro hk
    exact ⟨h.name.trans hk.name, h.position.trans hk.position, h.screenWidth.trans hk.screenWidth,
      h.screenHeight.trans hk.screenHeight⟩

/-- What the handler announces is what it was admitted with. -/
theorem Bears.event_eq {k : Conn} {adm : Admitted} (h : Bears k adm) (c : ConnId) :
    (⟨.handler c, .newClient k.name k.position k.screenWidth k.screenHeight c⟩ : Event)
      = newClient c adm := by
  rw [newClient, h.name, h.position, h.screenWidth, h.screenHeight]

theorem sentBy_concat (log : List Event) (e : Event) (c : ConnId) :
    sentBy (log ++ [e]) c = sentBy log c ++ if e.source.conn = some c then [e] else [] :=
  filter_conn_concat log e c

/-- A step that keeps the identity of every connection and queues nothing. -/
theorem Kept.frame (h : Kept serde config g log) {s : System}
    (hconfig : s.server.config = g.system.server.config) (hevents : s.events <:+ g.system.events)
    (hsame : ∀ c, (g.system.conns c).SameIdentity (s.conns c))
    (hconfigured : ∀ name client, s.server.clients.lookup name = some client →
      config.clients.lookup name = some client.position) :
    Kept serde config { g with system := s } log := by
  refine ⟨hconfig.trans h.config_eq, hevents.trans h.queue, ?_, ?_, ?_, hconfigured⟩
  · intro c hphase
    rw [(hsame c).phase] at hphase
    obtain ⟨a, adm, ha, hadmits, hbears⟩ := h.admitted c hphase
    exact ⟨a, adm, ha, hadmits, (Bears.of_same (hsame c)).mpr hbears⟩
  · intro c hphase
    rw [(hsame c).phase] at hphase
    exact h.silent c hphase
  · intro c hphase adm hbears
    rw [(hsame c).phase] at hphase
    exact h.heralded c hphase adm ((Bears.of_same (hsame c)).mp hbears)

theorem Kept.setConn (h : Kept serde config g log) {c : ConnId} {k : Conn}
    (hsame : (g.system.conns c).SameIdentity k) :
    Kept serde config { g with system := g.system.setConn c k } log := by
  refine h.frame rfl (List.suffix_refl _) ?_ h.configured
  exact System.setConn_forall (fun _ => ⟨rfl, rfl, rfl, rfl, rfl⟩) hsame

/-- An event of an announced connection, or of none, is queued. -/
theorem Kept.push (h : Kept serde config g log) {e : Event}
    (hannounced : ∀ c, e.source.conn = some c → (g.system.conns c).phase = .announced)
    (hnew : ∀ c, e.source ≠ .handler c) :
    Kept serde config { g with system := g.system.push e } (log ++ [e]) := by
  refine ⟨h.config_eq, ?_, h.admitted, ?_, ?_, h.configured⟩
  · obtain ⟨handled, hlog⟩ := h.queue
    exact ⟨handled, by rw [← hlog, List.append_assoc]; rfl⟩
  · intro c hphase
    rw [sentBy_concat, h.silent c hphase, if_neg, List.append_nil]
    exact fun hconn => hphase (hannounced c hconn)
  · intro c hphase adm hbears
    obtain ⟨rest, hsent, hrest⟩ := h.heralded c hphase adm hbears
    refine ⟨rest ++ if e.source.conn = some c then [e] else [], ?_, ?_⟩
    · rw [sentBy_concat, hsent, List.cons_append]
    · intro e' he'
      rcases List.mem_append.mp he' with hold | hlast
      · exact hrest e' hold
      · split at hlast
        · rw [List.mem_singleton.mp hlast]
          exact hnew c
        · cases hlast

/-! ## One step -/

/-- Nothing is there under the number of a connection that has not arrived. -/
theorem Kept.absent (h : Kept serde config g log) {c : ConnId} (hnone : g.arrivals c = none) :
    (g.system.conns c).phase = .absent := by
  by_contra hphase
  obtain ⟨a, _, ha, _⟩ := h.admitted c hphase
  rw [hnone] at ha
  cases ha

/-- A connection that is turned away leaves no trace. -/
theorem Kept.refuse (h : Kept serde config g log) {c : ConnId} (a : Arrival)
    (hnone : g.arrivals c = none) :
    Kept serde config { g with arrivals := Function.update g.arrivals c (some a) } log := by
  refine ⟨h.config_eq, h.queue, ?_, h.silent, h.heralded, h.configured⟩
  intro c' hphase
  have hc : c' ≠ c := by
    rintro rfl
    exact hphase (h.absent hnone)
  obtain ⟨a', adm, ha', hadmits, hbears⟩ := h.admitted c' hphase
  exact ⟨a', adm, (Function.update_of_ne hc ..).trans ha', hadmits, hbears⟩

theorem Kept.admit (h : Kept serde config g log) {c : ConnId} {a : Arrival} {adm : Admitted}
    (peer : Client) (hnone : g.arrivals c = none) (hadmits : a.Admits serde config adm) :
    Kept serde config
      { system := g.system.setConn c (Conn.admitted adm peer)
        arrivals := Function.update g.arrivals c (some a) } log := by
  have hself : (g.system.setConn c (Conn.admitted adm peer)).conns c = Conn.admitted adm peer :=
    System.conns_setConn_self ..
  have hother : ∀ c', c' ≠ c →
      (g.system.setConn c (Conn.admitted adm peer)).conns c' = g.system.conns c' :=
    fun c' hc => System.conns_setConn_of_ne hc _
  refine ⟨h.config_eq, h.queue, ?_, ?_, ?_, h.configured⟩
  · intro c' hphase
    by_cases hc : c' = c
    -- the connection itself carries the data of its handshake
    · subst hc
      refine ⟨a, adm, Function.update_self .., hadmits, ?_⟩
      show Bears ((g.system.setConn c' (Conn.admitted adm peer)).conns c') adm
      rw [hself]
      exact ⟨rfl, rfl, rfl, rfl⟩
    · have hbefore : (g.system.conns c').phase ≠ .absent := hother c' hc ▸ hphase
      obtain ⟨a', adm', ha', hadmits', hbears⟩ := h.admitted c' hbefore
      refine ⟨a', adm', (Function.update_of_ne hc ..).trans ha', hadmits', ?_⟩
      show Bears ((g.system.setConn c (Conn.admitted adm peer)).conns c') adm'
      rw [hother c' hc]
      exact hbears
  · intro c' hphase
    by_cases hc : c' = c
    · subst hc
      exact h.silent c' (by rw [h.absent hnone]; nofun)
    · have hbefore : (g.system.conns c').phase ≠ .announced := hother c' hc ▸ hphase
      exact h.silent c' hbefore
  · intro c' hphase adm' hbears
    by_cases hc : c' = c
    -- admitted is not announced yet
    · subst hc
      have haccepted : (Conn.admitted adm peer).phase = .announced := hself ▸ hphase
      cases haccepted
    · have hbefore : (g.system.conns c').phase = .announced := hother c' hc ▸ hphase
      have hbears' : Bears (g.system.conns c') adm' := hother c' hc ▸ hbears
      exact h.heralded c' hbefore adm' hbears'

/-- The handler queues `NewClient` before anything else is queued for the connection. -/
theorem Kept.announce (h : Kept serde config g log) {c : ConnId} {adm : Admitted}
    (hphase : (g.system.conns c).phase = .accepted) (hbears : Bears (g.system.conns c) adm) :
    Kept serde config
      { g with
        system := (g.system.setConn c { g.system.conns c with phase := .announced }).push
          (newClient c adm) }
      (log ++ [newClient c adm]) := by
  have hself : (g.system.setConn c { g.system.conns c with phase := .announced }).conns c
      = { g.system.conns c with phase := .announced } := System.conns_setConn_self ..
  have hother : ∀ c', c' ≠ c →
      (g.system.setConn c { g.system.conns c with phase := .announced }).conns c'
        = g.system.conns c' := fun c' hc => System.conns_setConn_of_ne hc _
  have hquiet : ∀ c', c' ≠ c → sentBy (log ++ [newClient c adm]) c' = sentBy log c' := by
    intro c' hc
    rw [sentBy_concat, if_neg, List.append_nil]
    exact fun heq => hc (Option.some.inj heq).symm
  refine ⟨h.config_eq, ?_, ?_, ?_, ?_, h.configured⟩
  · obtain ⟨handled, hlog⟩ := h.queue
    exact ⟨handled, by rw [← hlog, List.append_assoc]; rfl⟩
  · intro c' hphase'
    by_cases hc : c' = c
    · subst hc
      obtain ⟨a, adm', ha, hadmits, hbears'⟩ := h.admitted c' (by rw [hphase]; nofun)
      refine ⟨a, adm', ha, hadmits, ?_⟩
      show Bears ((g.system.setConn c' _).conns c') adm'
      rw [hself]
      exact ⟨hbears'.name, hbears'.position, hbears'.screenWidth, hbears'.screenHeight⟩
    · have hbefore : (g.system.conns c').phase ≠ .absent := hother c' hc ▸ hphase'
      obtain ⟨a, adm', ha, hadmits, hbears'⟩ := h.admitted c' hbefore
      refine ⟨a, adm', ha, hadmits, ?_⟩
      show Bears ((g.system.setConn c _).conns c') adm'
      rw [hother c' hc]
      exact hbears'
  · intro c' hphase'
    by_cases hc : c' = c
    · subst hc
      have hannounced : ((g.system.setConn c' { g.system.conns c' with
          phase := .announced }).conns c').phase = .announced := by rw [hself]
      exact absurd hannounced hphase'
    · have hbefore : (g.system.conns c').phase ≠ .announced := hother c' hc ▸ hphase'
      rw [hquiet c' hc]
      exact h.silent c' hbefore
  · intro c' hphase' adm' hbears'
    by_cases hc : c' = c
    -- the first event of the connection, which bears one name and one position
    · subst hc
      have hself' : Bears { g.system.conns c' with phase := .announced } adm' := hself ▸ hbears'
      have hsame : newClient c' adm = newClient c' adm' := by
        rw [← hbears.event_eq c']
        exact hself'.event_eq c'
      refine ⟨[], ?_, nofun⟩
      rw [sentBy_concat, h.silent c' (by rw [hphase]; nofun), hsame]
      exact if_pos rfl
    · have hbefore : (g.system.conns c').phase = .announced := hother c' hc ▸ hphase'
      have hbefore' : Bears (g.system.conns c') adm' := hother c' hc ▸ hbears'
      rw [hquiet c' hc]
      exact h.heralded c' hbefore adm' hbefore'

/-- What a connection queues after its registration. -/
theorem Kept.emitted (h : Kept serde config g log) (hwired : g.system.Wired) {c : ConnId}
    {what : Emit} {k : Conn} {e : Event} (hk : (g.system.conns c).Emits c what k e) :
    Kept serde config { g with system := (g.system.setConn c k).push e } (log ++ [e]) := by
  -- whatever else it queues comes after the announcement
  have hlater : ∀ {k : Conn} {e : Event}, (g.system.conns c).SameIdentity k →
      (g.system.conns c).phase = .announced → e.source.conn = some c →
      (∀ c', e.source ≠ .handler c') →
      Kept serde config { g with system := (g.system.setConn c k).push e } (log ++ [e]) := by
    intro k e hsame hannounced hconn hnew
    refine (h.setConn hsame).push ?_ hnew
    intro c' hc'
    rw [hconn] at hc'
    cases hc'
    show ((g.system.setConn c k).conns c).phase = .announced
    rw [System.conns_setConn_self, hsame.phase]
    exact hannounced
  cases hk with
  | announce hphase =>
      obtain ⟨_, adm, _, _, hbears⟩ := h.admitted c (by rw [hphase]; nofun)
      rw [hbears.event_eq c]
      exact h.announce hphase hbears
  | writerReport hwriter =>
      -- a writer that stops has been given something, or has lost its sender
      have hannounced : (g.system.conns c).phase = .announced := by
        by_contra hphase
        rw [(hwired.untouched c (Or.inl hphase)).writer] at hwriter
        cases hwriter
      exact hlater ⟨rfl, rfl, rfl, rfl, rfl⟩ hannounced rfl nofun
  | readerDeliver hphase => exact hlater ⟨rfl, rfl, rfl, rfl, rfl⟩ hphase rfl nofun
  | readerReport hphase => exact hlater ⟨rfl, rfl, rfl, rfl, rfl⟩ hphase rfl nofun

/-- A name is registered by a `NewClient`, whose position is the configured one. -/
theorem Kept.served (h : Kept serde config g log) (hwired : g.system.Wired) (env : Env ConnId)
    {e : Event} {events : List Event} (hevents : g.system.events = e :: events) :
    Kept serde config { g with system := g.system.served env e events } log := by
  refine h.frame (Server.handle_config ..) ?_ (fun c => System.served_identity c) ?_
  · rw [hevents]
    exact List.suffix_cons e events
  · intro name client hclient
    rw [System.served_clients] at hclient
    rcases Server.lookup_clientsAfter hclient with hbefore | hnew
    · exact h.configured name client hbefore
    · obtain ⟨hsource, hname⟩ := (hwired.first hevents).of_newClient hnew
      have hposition := (hwired.first hevents).position_of_newClient hnew
      -- the event is still in the queue, so its connection is an announced one
      have hannounced : (g.system.conns client.tx).phase = .announced := by
        by_contra hphase
        have hmem : e ∈ g.system.eventsOf client.tx :=
          System.mem_eventsOf.mpr ⟨System.first_mem hevents, by rw [hsource]; rfl⟩
        rw [hwired.silent client.tx hphase] at hmem
        cases hmem
      obtain ⟨_, adm, _, hadmits, hbears⟩ := h.admitted client.tx (by rw [hannounced]; nofun)
      rw [hname, hposition, hbears.name, hbears.position]
      exact hadmits.configured

/-- A step of the system in which nobody comes in. -/
theorem Kept.run (h : Kept serde config g log) (hwired : g.system.Wired) {l : Label} {s : System}
    (hstep : g.system.Step l s)
    (hinside : ∀ c client clip now₁ now₂, l ≠ .accept c client clip now₁ now₂) :
    Kept serde config { g with system := s } (log ++ g.system.queues l) := by
  cases hstep with
  | accept => exact absurd rfl (hinside _ _ _ _ _)
  | conn hk =>
      show Kept serde config _ (log ++ [])
      rw [List.append_nil]
      exact h.setConn hk.identity
  | stopWriter =>
      show Kept serde config _ (log ++ [])
      rw [List.append_nil]
      exact h.setConn ⟨rfl, rfl, rfl, rfl, rfl⟩
  | emit hk =>
      rw [System.queues, Conn.emit_of_emits hk]
      exact h.emitted hwired hk
  | capture => exact h.push nofun nofun
  | copied => exact h.push nofun nofun
  | serve hevents =>
      show Kept serde config _ (log ++ [])
      rw [List.append_nil]
      exact h.served hwired _ hevents

theorem kept_step {act : Action} (hwired : g.system.Wired) (h : Kept serde config g log)
    (hnext : next serde g act = some g') :
    g'.system.Wired ∧ Kept serde config g' (note g act log) := by
  cases act with
  | arrive c a peer =>
      simp only [next] at hnext
      split at hnext
      · rename_i hnone hinactive
        cases hnext
        show (enter serde g.system c a peer).Wired ∧
          Kept serde config ⟨enter serde g.system c a peer, _⟩ log
        unfold enter
        rw [h.config_eq]
        cases hout : a.handleNewConnection serde config with
        | error e => exact ⟨hwired, h.refuse a hnone⟩
        | ok adm =>
            refine ⟨?_, h.admit peer hnone (Arrival.handleNewConnection_eq_ok.mp hout)⟩
            have habsent := h.absent hnone
            refine hwired.setConn ?_ ?_ ?_ ?_
            · rw [habsent]
              nofun
            · rw [habsent]
              nofun
            · intro _
              exact ⟨rfl, rfl, rfl, hinactive⟩
            · intro _
              nofun
      · cases hnext
  | run l =>
      have hrun : ∃ s, g.system.next l = some s ∧ g' = { g with system := s } ∧
          ∀ c client clip now₁ now₂, l ≠ .accept c client clip now₁ now₂ := by
        unfold next at hnext
        split at hnext
        · rename_i heq
          cases heq
        · cases hnext
        · rename_i hinside heq
          cases heq
          obtain ⟨s, hs, rfl⟩ := Option.map_eq_some_iff.mp hnext
          exact ⟨s, hs, rfl, fun c client clip now₁ now₂ hl => hinside c client clip now₁ now₂ hl⟩
      obtain ⟨s, hs, rfl, hinside⟩ := hrun
      have hstep := System.step_of_next hs
      exact ⟨hwired.step hstep, h.run hwired hstep hinside⟩

theorem kept_init (h : (lts serde config).init g) :
    g.system.Wired ∧ Kept serde config g [] := by
  obtain ⟨⟨clipboard, now, hsystem⟩, _⟩ := h
  rw [hsystem]
  refine ⟨System.wired_new config clipboard now, ?_⟩
  refine ⟨?_, ?_, ?_, fun _ _ => rfl, ?_, ?_⟩
  all_goals rw [hsystem]
  · rfl
  · exact List.suffix_refl []
  · intro c hphase
    exact absurd rfl hphase
  · nofun
  · nofun

/-- The invariant holds along every run. -/
theorem kept_of_steps {g₀ : Listener} {acts : List Action} (hinit : (lts serde config).init g₀)
    (hrun : (lts serde config).Steps LTS.anyStep g₀ acts g) :
    g.system.Wired ∧ Kept serde config g (queuedAlong serde config g₀ acts) := by
  refine LTS.Steps.record_invariant (I := fun g log => g.system.Wired ∧ Kept serde config g log)
    ?_ hrun ?_
  · intro g act g' log hg _ hnext
    exact kept_step hg.1 hg.2 hnext
  · exact kept_init hinit

/-- Along every run, whatever the peers, the transport and the scheduler do: a connection that is not
admitted has queued nothing; what one that is admitted has queued begins with its `NewClient`, and
there is no other; and every registered name has its configured position. -/
theorem newClient_first (serde : SerdeJson) (config : ServerConfig) (g₀ g : Listener)
    (acts : List Action) (hinit : (lts serde config).init g₀)
    (hrun : (lts serde config).Steps LTS.anyStep g₀ acts g) :
    (g.system.events <:+ queuedAlong serde config g₀ acts) ∧
      (∀ c, (∀ a adm, g.arrivals c = some a → ¬ a.Admits serde config adm) →
        sentBy (queuedAlong serde config g₀ acts) c = []) ∧
      (∀ c a adm, g.arrivals c = some a → a.Admits serde config adm →
        sentBy (queuedAlong serde config g₀ acts) c = [] ∨
          Heralded c adm (sentBy (queuedAlong serde config g₀ acts) c)) ∧
      ∀ name client, g.system.server.clients.lookup name = some client →
        config.clients.lookup name = some client.position := by
  obtain ⟨_, hkept⟩ := kept_of_steps hinit hrun
  refine ⟨hkept.queue, ?_, ?_, hkept.configured⟩
  -- who is announced was admitted
  · intro c hrefused
    apply hkept.silent c
    intro hannounced
    obtain ⟨a, adm, ha, hadmits, _⟩ := hkept.admitted c (by rw [hannounced]; nofun)
    exact hrefused a adm ha hadmits
  · intro c a adm ha hadmits
    by_cases hannounced : (g.system.conns c).phase = .announced
    · obtain ⟨a', adm', ha', hadmits', hbears⟩ := hkept.admitted c (by rw [hannounced]; nofun)
      rw [ha] at ha'
      cases ha'
      -- the handler's outcome is one
      have hsame : (.ok adm : Except Error Admitted) = .ok adm' :=
        (Arrival.handleNewConnection_eq_ok.mpr hadmits).symm.trans
          (Arrival.handleNewConnection_eq_ok.mpr hadmits')
      cases hsame
      exact Or.inr (hkept.heralded c hannounced adm hbears)
    · exact Or.inl (hkept.silent c hannounced)

/-! ## A laptop is admitted -/

/-- What the laptop sends first. -/
def laptopHello : Message := Message.handshake "laptop" 800 600

/-- Its payload as it is on the wire. -/
def helloText : List UInt8 :=
  [123, 34, 110, 97, 109, 101, 34, 58, 34, 108, 97, 112, 116, 111, 112, 34, 44, 34, 115, 99,
    114, 101, 101, 110, 95, 104, 101, 105, 103, 104, 116, 34, 58, 54, 48, 48, 44, 34, 115, 99,
    114, 101, 101, 110, 95, 119, 105, 100, 116, 104, 34, 58, 56, 48, 48, 125]

theorem text_hello : laptopHello.payload.text = helloText := by decide

/-- `serde_json` on what the two sides write. -/
def laptopSerde : SerdeJson :=
  .ofValues [laptopHello.payload, (Message.handshakeAck "left" 640 480).payload]

/-- Where the hello is read back, its text is read as the hello. -/
theorem fromSlice_hello {values : List Value} (h : (values.map Value.text).Nodup)
    (hhello : laptopHello.payload ∈ values) :
    (SerdeJson.ofValues values).fromSlice helloText = .ok laptopHello.payload := by
  rw [← text_hello]
  exact SerdeJson.ofValues_roundTrips h hhello

/-- The bytes of the hello before they are encrypted. -/
def helloBytes : List UInt8 := [1, 0, 0, 0, 56] ++ helloText

/-- The laptop's hello on the wire: one frame, under a tagged session. -/
def helloReader : SecureReader :=
  ⟨⟨frame (helloBytes ++ List.replicate TAG_LEN 0), none⟩, taggedSession, 0⟩

/-- The laptop's connection, when nothing goes wrong. -/
def laptopArrival : Arrival where
  addr := "10.0.0.2:40000"
  secure := some (.ok (helloReader, ⟨[], taggedSession, 0⟩))
  timedOut := false
  written := .ok ()
  flushed := .ok ()

theorem decode_hello {serde : SerdeJson} (hserde : serde.fromSlice helloText = .ok laptopHello.payload) :
    Message.decode serde helloBytes = .ok (some (laptopHello, 61)) := by
  have htext : serde.fromSlice (helloText.take 56) = .ok laptopHello.payload := by
    rwa [List.take_of_length_le (by decide)]
  have hlen : Message.u32FromBeBytes 0 0 0 56 = 56 := rfl
  have hfits : ¬ 56 > MAX_PAYLOAD := by decide
  have hthere : ¬ helloBytes.length < HEADER_LEN + 56 := by decide
  unfold helloBytes at hthere ⊢
  simp only [List.cons_append, List.nil_append] at hthere ⊢
  simp only [Message.decode, hlen, if_neg hfits, if_neg hthere, htext]
  rfl

theorem receive_hello {serde : SerdeJson} (hserde : serde.fromSlice helloText = .ok laptopHello.payload) :
    ∃ reader, (ProtocolReader.new helloReader).receive serde
      = (.ok (some laptopHello), reader) := by
  have hread : ChunkReader.readChunk helloReader =
      (.ok (some helloBytes), ⟨⟨[], none⟩, taggedSession, 1⟩) := by
    have hplain : taggedSession.readMessage 0 (helloBytes ++ List.replicate TAG_LEN 0)
        = .ok helloBytes := rfl
    have hframe : ChunkReader.readChunk (SecureReader.mk
        ⟨frame (helloBytes ++ List.replicate TAG_LEN 0) ++ [], none⟩ taggedSession 0)
        = (.ok (some helloBytes), ⟨⟨[], none⟩, taggedSession, 1⟩) :=
      readChunk_frame ⟨by decide, by decide⟩ hplain
    rw [List.append_nil] at hframe
    exact hframe
  have hempty : Message.decode serde (ProtocolReader.new helloReader).buffer = .ok none := rfl
  have hchunk := ProtocolReader.receive_of_chunk hempty hread
  exact ⟨_, hchunk.trans (ProtocolReader.receive_of_item (decode_hello hserde))⟩

/-- The laptop is admitted at the position the configuration has for it. -/
theorem admits_laptop : ∃ adm, laptopArrival.Admits laptopSerde Server.leftConfig adm ∧
    adm.name = "laptop" ∧ adm.position = .left ∧ adm.screenWidth = 800 ∧ adm.screenHeight = 600 := by
  obtain ⟨reader, hreceive⟩ := receive_hello
    (show laptopSerde.fromSlice helloText = _ from fromSlice_hello (by decide) List.mem_cons_self)
  obtain ⟨w, _, hsend, _⟩ := sendAll_pending laptopSerde 0 [Message.handshakeAck "left" 640 480]
    inOrder_taggedSession
  obtain ⟨writer, hack, _⟩ := bind_eq_ok.mp hsend
  exact ⟨⟨"laptop", .left, 800, 600, reader, writer⟩,
    ⟨⟨helloReader, ⟨[], taggedSession, 0⟩, laptopHello, rfl, rfl, hreceive, rfl, rfl, rfl, rfl, hack⟩,
      rfl, rfl, rfl⟩, rfl, rfl, rfl, rfl⟩

/-- The laptop's program behind its handshakes. -/
def laptopPeer : Client :=
  Client.connected laptop ClipboardManager.new 0 0 (Message.handshakeAck "left" 640 480)

/-- The laptop's connection arrives, is announced and is registered. -/
def laptopJoins : List Action :=
  [.arrive 0 laptopArrival laptopPeer, .run (.emit 0 .announce),
    .run (.serve ⟨0, HashOrder.entries ConnId⟩)]

/-- A server that nobody has connected to. -/
def idleListener : Listener where
  system := System.new Server.leftConfig ClipboardManager.new 0
  arrivals _ := none

theorem newClient_first_laptop :
    ∃ g adm client, (lts laptopSerde Server.leftConfig).exec idleListener laptopJoins = some g ∧
      laptopArrival.Admits laptopSerde Server.leftConfig adm ∧
      Heralded 0 adm
        (sentBy (queuedAlong laptopSerde Server.leftConfig idleListener laptopJoins) 0) ∧
      g.system.server.clients.lookup "laptop" = some client ∧
      Server.leftConfig.clients.lookup "laptop" = some client.position := by
  obtain ⟨⟨name, position, w, hgt, reader, writer⟩, hadmits, rfl, rfl, rfl, rfl⟩ := admits_laptop
  have hout := Arrival.handleNewConnection_eq_ok.mpr hadmits
  have henter : enter laptopSerde idleListener.system 0 laptopArrival laptopPeer
      = idleListener.system.setConn 0
          (Conn.admitted ⟨"laptop", .left, 800, 600, reader, writer⟩ laptopPeer) := by
    show (match laptopArrival.handleNewConnection laptopSerde Server.leftConfig with
      | .ok adm => idleListener.system.setConn 0 (Conn.admitted adm laptopPeer)
      | .error _ => idleListener.system) = _
    rw [hout]
  have hfirst : (lts laptopSerde Server.leftConfig).next idleListener
      (.arrive 0 laptopArrival laptopPeer) = some
        ⟨idleListener.system.setConn 0
          (Conn.admitted ⟨"laptop", .left, 800, 600, reader, writer⟩ laptopPeer),
          Function.update idleListener.arrivals 0 (some laptopArrival)⟩ := by
    show next laptopSerde idleListener (.arrive 0 laptopArrival laptopPeer) = _
    rw [← henter]
    rfl
  obtain ⟨g, hexec, harrived, ⟨client, hclient⟩, hlog⟩ :
      ∃ g, (lts laptopSerde Server.leftConfig).exec idleListener laptopJoins = some g ∧
        g.arrivals 0 = some laptopArrival ∧
        (∃ client, g.system.server.clients.lookup "laptop" = some client) ∧
        queuedAlong laptopSerde Server.leftConfig idleListener laptopJoins
          = [newClient 0 ⟨"laptop", .left, 800, 600, reader, writer⟩] := by
    rw [queuedAlong, laptopJoins, LTS.exec, LTS.record, hfirst]
    exact ⟨_, rfl, rfl, ⟨_, rfl⟩, rfl⟩
  obtain ⟨_, _, hheralded, hconfigured⟩ := newClient_first laptopSerde Server.leftConfig
    idleListener g laptopJoins ⟨⟨ClipboardManager.new, 0, rfl⟩, fun _ => rfl⟩
    (LTS.steps_of_exec hexec (LTS.guarded_anyStep _ _))
  refine ⟨g, _, client, hexec, hadmits, ?_, hclient, hconfigured "laptop" client hclient⟩
  refine (hheralded 0 laptopArrival _ harrived hadmits).resolve_left ?_
  rw [hlog]
  exact List.cons_ne_nil _ _

end Listener

end Bluecross
