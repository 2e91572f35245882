/-
# Bluecross.SystemSteps — what each step of the system can do, said once.

`System.Step` lists the steps with what enables them and what they leave; `step_of_next` is the only
lemma that unfolds `System.next`, and every invariant is a case analysis on `Step`. The event loop's
own step is refined further: `InputOutcome` is what handling captured input can do to the active
client and the queues, and `appends_handle` bounds what any event adds to a queue.
-/
import Bluecross.ServerControl
import Bluecross.System

namespace Bluecross

open Lib (LTS)

/-! ## Steps as a relation -/

/-- The steps of one connection. -/
inductive Conn.Step (k : Conn) : ConnStep → Conn → Prop where
  | recv {msg : Message} {queue : List Message} :
      k.writer = .idle → k.queue = msg :: queue →
      Step k .recv { k with writer := .writing msg, queue := queue }
  | written {msg : Message} :
      k.writer = .writing msg → Step k .written { k with writer := .idle, down := k.down ++ [msg] }
  | failed {msg : Message} :
      k.writer = .writing msg → Step k .failed { k with writer := .stopping .writeFailed }
  | send {msg : Message} :
      k.running = true → Step k (.send msg) { k with up := k.up ++ [msg] }
  | batch {first : Instant} {rest : List Instant} {exit : ExitClock} {sendOk : Bool} {b : Batch}
      {wire : List Message} :
      k.running = true → k.down = b.messages ++ wire →
      Step k (.batch first rest exit sendOk) (k.takeBatch b wire sendOk)
  | stop : k.running = true → Step k .stop k.stopClient

/-- The events a connection's tasks send. -/
inductive Conn.Emits (c : ConnId) (k : Conn) : Emit → Conn → Event → Prop where
  | announce :
      k.phase = .accepted →
      Emits c k .announce { k with phase := .announced }
        ⟨.handler c, .newClient k.name k.position k.screenWidth k.screenHeight c⟩
  | writerReport {cause : StopCause} :
      k.writer = .stopping cause →
      Emits c k .writerReport { k with writer := .ended }
        ⟨.writer c cause, .clientDisconnected k.name⟩
  | readerDeliver {msg : Message} {up : List Message} :
      k.phase = .announced → k.reader = .running → k.up = msg :: up →
      Emits c k .readerDeliver { k with up := up } ⟨.reader c, .clientMessage k.name msg⟩
  | readerReport :
      k.phase = .announced → k.reader = .running →
      Emits c k .readerReport { k with reader := .ended } ⟨.reader c, .clientDisconnected k.name⟩

/-- The steps of the system. -/
inductive System.Step (s : System) : Label → System → Prop where
  | accept {c : ConnId} {config : ClientConfig} {clipboard : ClipboardManager}
      {now₁ now₂ : Instant} {position : ScreenPosition} :
      (s.conns c).phase = .absent → s.server.config.clients.lookup config.name = some position →
      Step s (.accept c config clipboard now₁ now₂)
        (s.setConn c (Conn.accepted s.server.config config position clipboard now₁ now₂))
  | conn {c : ConnId} {step : ConnStep} {k : Conn} :
      (s.conns c).Step step k → Step s (.conn c step) (s.setConn c k)
  | stopWriter {c : ConnId} :
      (s.conns c).writer = .idle → (s.conns c).queue = [] → s.senderAlive c = false →
      Step s (.stopWriter c) (s.setConn c { s.conns c with writer := .stopping .senderDropped })
  | emit {c : ConnId} {what : Emit} {k : Conn} {e : Event} :
      (s.conns c).Emits c what k e → Step s (.emit c what) ((s.setConn c k).push e)
  | capture {ev : CaptureEvent} : Step s (.capture ev) (s.push ⟨.capture, .input ev⟩)
  | copied {content : String} :
      Step s (.copied content) (s.push ⟨.clipboard, .clipboardChanged content⟩)
  | serve {env : Env ConnId} {e : Event} {events : List Event} :
      s.events = e :: events →
      Step s (.serve env)
        { server := (s.server.handle env s.conns e.event).1
          conns := (s.server.handle env s.conns e.event).2
          events := events }

/-- A batch is the messages at the front of the wire. -/
theorem Batch.take_messages {first : Instant} {rest : List Instant} {exit : ExitClock}
    {down wire : List Message} {b : Batch}
    (h : Batch.take first rest exit down = some (b, wire)) : down = b.messages ++ wire := by
  cases down with
  | nil => cases h
  | cons msg down =>
      simp only [Batch.take] at h
      split at h
      · rename_i hlen
        obtain ⟨rfl, rfl⟩ := Prod.mk.inj (Option.some.inj h)
        have hfst : ((down.take rest.length).zip rest).map Prod.fst = down.take rest.length := by
          apply List.map_fst_zip
          rw [List.length_take]
          omega
        rw [Batch.messages, hfst, List.cons_append, List.take_append_drop]
      · cases h

theorem Conn.step_of_next {k k' : Conn} {step : ConnStep} (h : k.next step = some k') :
    k.Step step k' := by
  unfold Conn.next at h
  split at h
  · split at h
    · rename_i hwriter hqueue
      rw [← Option.some.inj h]
      exact .recv hwriter hqueue
    · cases h
  · split at h
    · rename_i hwriter
      rw [← Option.some.inj h]
      exact .written hwriter
    · cases h
  · split at h
    · rename_i hwriter
      rw [← Option.some.inj h]
      exact .failed hwriter
    · cases h
  · split at h
    · rename_i hrunning
      rw [← Option.some.inj h]
      exact .send hrunning
    · cases h
  · split at h
    · rename_i hrunning
      obtain ⟨⟨b, wire⟩, htake, hk⟩ := Option.map_eq_some_iff.mp h
      rw [← hk]
      exact .batch hrunning (Batch.take_messages htake)
    · cases h
  · split at h
    · rename_i hrunning
      rw [← Option.some.inj h]
      exact .stop hrunning
    · cases h

theorem Conn.emits_of_emit {c : ConnId} {k k' : Conn} {what : Emit} {e : Event}
    (h : k.emit c what = some (k', e)) : k.Emits c what k' e := by
  unfold Conn.emit at h
  split at h
  · split at h
    · rename_i hphase
      obtain ⟨rfl, rfl⟩ := Prod.mk.inj (Option.some.inj h)
      exact .announce hphase
    · cases h
  · split at h
    · rename_i hwriter
      obtain ⟨rfl, rfl⟩ := Prod.mk.inj (Option.some.inj h)
      exact .writerReport hwriter
    · cases h
  · split at h
    · rename_i hphase hreader hup
      obtain ⟨rfl, rfl⟩ := Prod.mk.inj (Option.some.inj h)
      exact .readerDeliver hphase hreader hup
    · cases h
  · split at h
    · rename_i hphase hreader
      obtain ⟨rfl, rfl⟩ := Prod.mk.inj (Option.some.inj h)
      exact .readerReport hphase hreader
    · cases h

theorem Conn.emit_of_emits {c : ConnId} {k k' : Conn} {what : Emit} {e : Event}
    (h : k.Emits c what k' e) : k.emit c what = some (k', e) := by
  cases h with
  | announce hphase => simp only [Conn.emit, hphase, if_true]
  | writerReport hwriter => simp only [Conn.emit, hwriter]
  | readerDeliver hphase hreader hup => simp only [Conn.emit, hphase, hreader, hup]
  | readerReport hphase hreader => simp only [Conn.emit, hphase, hreader]

theorem System.step_of_next {s s' : System} {l : Label} (h : s.next l = some s') :
    s.Step l s' := by
  unfold System.next at h
  split at h
  · split at h
    · rename_i hphase hposition
      rw [← Option.some.inj h]
      exact .accept hphase hposition
    · cases h
  · obtain ⟨k, hk, rfl⟩ := Option.map_eq_some_iff.mp h
    exact .conn (Conn.step_of_next hk)
  · split at h
    · rename_i hwriter hqueue
      split at h
      · cases h
      · rename_i hdead
        rw [← Option.some.inj h]
        exact .stopWriter hwriter hqueue (Bool.not_eq_true _ ▸ hdead)
    · cases h
  · split at h
    · obtain ⟨⟨k, e⟩, hk, rfl⟩ := Option.map_eq_some_iff.mp h
      exact .emit (Conn.emits_of_emit hk)
    · cases h
  · split at h
    · rw [← Option.some.inj h]
      exact .capture
    · cases h
  · split at h
    · rw [← Option.some.inj h]
      exact .copied
    · cases h
  · unfold System.serve at h
    split at h
    · cases h
    · rename_i hevents
      rw [← Option.some.inj h]
      exact .serve hevents

/-! ## The queues under the event loop -/

/-- Every connection is as it was, but for messages with this property queued behind the others, and
only registered clients have been sent any. -/
def Appends (clients : Clients ConnId) (P : Message → Prop) (conns conns' : Conns) : Prop :=
  ∀ c, ∃ more, conns' c = { conns c with queue := (conns c).queue ++ more } ∧
    (∀ msg ∈ more, P msg) ∧
    (more ≠ [] → ∃ name client, clients.lookup name = some client ∧ client.tx = c)

/-- What is queued is not a `SwitchToClient`. -/
abbrev Quiet (clients : Clients ConnId) (conns conns' : Conns) : Prop :=
  Appends clients (fun msg => msg.msgType ≠ .switchToClient) conns conns'

section

variable {clients : Clients ConnId} {P Q : Message → Prop} {conns conns' conns'' : Conns}

theorem Appends.refl (clients : Clients ConnId) (conns : Conns) : Appends clients P conns conns := by
  intro c
  exact ⟨[], by rw [List.append_nil], nofun, fun h => absurd rfl h⟩

theorem Appends.trans (h : Appends clients P conns conns') (h' : Appends clients P conns' conns'') :
    Appends clients P conns conns'' := by
  intro c
  obtain ⟨more, hc, hmore, hto⟩ := h c
  obtain ⟨more', hc', hmore', hto'⟩ := h' c
  refine ⟨more ++ more', ?_, ?_, ?_⟩
  · rw [hc', hc, List.append_assoc]
  · intro msg hmsg
    rcases List.mem_append.mp hmsg with hfirst | hlast
    · exact hmore msg hfirst
    · exact hmore' msg hlast
  · intro hne
    by_cases hempty : more = []
    · rw [hempty, List.nil_append] at hne
      exact hto' hne
    · exact hto hempty

theorem Appends.writer (h : Appends clients P conns conns') (c : ConnId) :
    (conns' c).writer = (conns c).writer := by
  obtain ⟨more, hc, _⟩ := h c
  rw [hc]

end

variable {clients : Clients ConnId} {P : Message → Prop}

/-- `try_send` at a writer that is over changes nothing. -/
theorem trySend_ended {conns : Conns} {c : ConnId} (h : (conns c).writer = .ended)
    (msg : Message) : Mailbox.trySend conns c msg = (.closed, conns) := by
  simp only [Mailbox.trySend, Conn.trySend, h, Function.update_eq_self]

theorem trySend_room {conns : Conns} {c : ConnId} (h : (conns c).writer ≠ .ended)
    (hroom : (conns c).queue.length < CLIENT_QUEUE) (msg : Message) :
    Mailbox.trySend conns c msg = (.ok,
      Function.update conns c { conns c with queue := (conns c).queue ++ [msg] }) := by
  rcases hwriter : (conns c).writer with _ | _ | _ | _
  case ended => exact absurd hwriter h
  all_goals simp only [Mailbox.trySend, Conn.trySend, hwriter, hroom, if_true]

/-- `try_send` at a full queue drops the message. -/
theorem trySend_full {conns : Conns} {c : ConnId} (h : (conns c).writer ≠ .ended)
    (hfull : ¬ (conns c).queue.length < CLIENT_QUEUE) (msg : Message) :
    Mailbox.trySend conns c msg = (.full, conns) := by
  rcases hwriter : (conns c).writer with _ | _ | _ | _
  case ended => exact absurd hwriter h
  all_goals simp only [Mailbox.trySend, Conn.trySend, hwriter, hfull, if_false,
    Function.update_eq_self]

theorem appends_trySend {name : String} {client : ClientInfo ConnId} (conns : Conns)
    (hclient : clients.lookup name = some client) {msg : Message} (hmsg : P msg) :
    Appends clients P conns (Mailbox.trySend conns client.tx msg).2 := by
  by_cases hended : (conns client.tx).writer = .ended
  · rw [trySend_ended hended]
    exact Appends.refl clients conns
  · by_cases hroom : (conns client.tx).queue.length < CLIENT_QUEUE
    · rw [trySend_room hended hroom]
      intro c
      by_cases hc : c = client.tx
      · subst hc
        -- the one message that is queued
        refine ⟨[msg], Function.update_self .., ?_, fun _ => ⟨name, client, hclient, rfl⟩⟩
        intro m hm
        rw [List.mem_singleton.mp hm]
        exact hmsg
      · refine ⟨[], ?_, nofun, fun h => absurd rfl h⟩
        rw [List.append_nil]
        exact Function.update_of_ne hc ..
    · rw [trySend_full hended hroom]
      exact Appends.refl clients conns

namespace Server

variable {s : Server ConnId} {conns : Conns} {env : Env ConnId} {ev : CaptureEvent}

theorem appends_sendTo (s : Server ConnId) (conns : Conns) (name : String) {msg : Message}
    (hmsg : P msg) : Appends s.clients P conns (s.sendTo conns name msg).2 := by
  rcases hclient : s.clients.lookup name with _ | client
  · rw [sendTo_unknown hclient]
    exact Appends.refl s.clients conns
  · rw [sendTo_registered hclient]
    exact appends_trySend conns hclient hmsg

/-- A send to a registered client fails only when its writer is over. -/
theorem sendTo_failed {name : String} {client : ClientInfo ConnId}
    (hclient : s.clients.lookup name = some client) {msg : Message}
    (h : ¬ (s.sendTo conns name msg).1 = true) : (conns client.tx).writer = .ended := by
  by_contra hended
  apply h
  rw [sendTo_registered hclient]
  by_cases hroom : (conns client.tx).queue.length < CLIENT_QUEUE
  · rw [trySend_room hended hroom]
    rfl
  · rw [trySend_full hended hroom]
    rfl

theorem appends_sendEach (s : Server ConnId) {msg : Message} (conns : Conns) (names : List String)
    (hmsg : P msg) : Appends s.clients P conns (s.sendEach msg conns names) := by
  induction names generalizing conns with
  | nil => exact Appends.refl s.clients conns
  | cons name names ih => exact (appends_sendTo s conns name hmsg).trans (ih _)

/-- What captured input can do to the active client and to the queues. -/
inductive InputOutcome (env : Env ConnId) (ev : CaptureEvent) (s : Server ConnId) (conns : Conns)
    (s' : Server ConnId) (conns' : Conns) : Prop where
  /-- The active client stays, and so does the absence of one. -/
  | kept :
      s'.activeClient = s.activeClient → Quiet s.clients conns conns' →
      InputOutcome env ev s conns s' conns'
  /-- The active client is gone, and control is back. -/
  | lost {name : String} {client : ClientInfo ConnId} :
      s.activeClient = some name → s'.activeClient = none →
      s.clients.lookup name = some client → (conns client.tx).writer = .ended →
      Quiet s.clients conns conns' → InputOutcome env ev s conns s' conns'
  /-- Control is handed over, and the client will be told. -/
  | switched {name : String} {client : ClientInfo ConnId} {x y : Int32} :
      s.activeClient = none → s.switchTarget env ev = some (name, x, y) →
      s'.activeClient = some name →
      s.clients.lookup name = some client → (conns client.tx).writer ≠ .ended →
      (conns client.tx).queue.length < CLIENT_QUEUE →
      conns' = Function.update conns client.tx
        { conns client.tx with
          queue := (conns client.tx).queue ++ [Message.switchToClient x y] } →
      InputOutcome env ev s conns s' conns'
  /-- Control is handed over, and the message that says so is dropped. -/
  | dropped {name : String} {client : ClientInfo ConnId} {x y : Int32} :
      s.activeClient = none → s.switchTarget env ev = some (name, x, y) →
      s'.activeClient = some name →
      s.clients.lookup name = some client → (conns client.tx).writer ≠ .ended →
      ¬ (conns client.tx).queue.length < CLIENT_QUEUE → conns' = conns →
      InputOutcome env ev s conns s' conns'

/-- The last message to the active client, behind some that were queued quietly: the client stays
active, or it is gone. -/
theorem sendOrDeactivate_outcome {before : Server ConnId} {conns₀ : Conns} {name : String}
    {client : ClientInfo ConnId} (hactive : before.activeClient = some name)
    (hclient : before.clients.lookup name = some client) {msg : Message}
    (hmsg : msg.msgType ≠ .switchToClient) (hsame : s.activeClient = some name)
    (hlookup : s.clients = before.clients)
    (hquiet : Quiet before.clients conns₀ conns) :
    InputOutcome env ev before conns₀ (s.sendOrDeactivate conns name msg).1
      (s.sendOrDeactivate conns name msg).2 := by
  have hsent : Quiet before.clients conns (s.sendTo conns name msg).2 := by
    rw [← hlookup]
    exact appends_sendTo s conns name hmsg
  have hall := hquiet.trans hsent
  have hclient' : s.clients.lookup name = some client := by
    rw [hlookup]
    exact hclient
  unfold sendOrDeactivate
  simp only
  split
  · exact .kept (hsame.trans hactive.symm) hall
  · rename_i hfailed
    have hended := sendTo_failed hclient' hfailed
    rw [hquiet.writer] at hended
    refine .lost hactive ?_ hclient hended hall
    rw [deactivate_of_active hsame]

theorem forwardToActive_outcome {name : String} {client : ClientInfo ConnId}
    (hactive : s.activeClient = some name) (hclient : s.clients.lookup name = some client)
    {msg : Message} (hmsg : msg.msgType ≠ .switchToClient) (flush : Bool) :
    InputOutcome env ev s conns (s.forwardToActive conns msg flush).1
      (s.forwardToActive conns msg flush).2 := by
  rw [forwardToActive_of_active hactive]
  split
  · have hmotion : Quiet s.clients conns ((s.setPending 0 0).sendTo conns name
        (Message.mouseMove s.mouseX s.mouseY s.pendingDx s.pendingDy)).2 :=
      appends_sendTo _ _ _ nofun
    simp only
    split
    -- the motion was taken, and the message decides; else the motion has decided
    · exact sendOrDeactivate_outcome hactive hclient hmsg hactive rfl hmotion
    · rename_i hfailed
      have hclient' : (s.setPending 0 0).clients.lookup name = some client := hclient
      refine .lost hactive ?_ hclient (sendTo_failed hclient' hfailed) hmotion
      rw [deactivate_of_active (s := s.setPending 0 0) hactive]
  · exact sendOrDeactivate_outcome hactive hclient hmsg hactive rfl (Appends.refl s.clients conns)

theorem forwardMotion_outcome {name : String} {client : ClientInfo ConnId}
    (hactive : s.activeClient = some name) (hclient : s.clients.lookup name = some client)
    (dx dy : Int32) :
    InputOutcome env ev s conns ((s.moveCursor dx dy).forwardMotion env conns name dx dy).1
      ((s.moveCursor dx dy).forwardMotion env conns name dx dy).2 := by
  rw [forwardMotion_eq]
  simp only
  split
  · split
    · exact .kept rfl (appends_sendTo _ _ _ nofun)
    · rename_i hfailed
      have hended := sendTo_failed (by exact hclient) hfailed
      refine .lost hactive ?_ hclient hended (appends_sendTo _ _ _ nofun)
      rw [deactivate_of_active (by exact hactive)]
  · exact .kept rfl (Appends.refl s.clients conns)

/-- The message that hands control over: queued, dropped, or not delivered because the client is
gone. -/
theorem switch_outcome {name : String} {client : ClientInfo ConnId} {given : Server ConnId}
    {x y : Int32} (hidle : s.activeClient = none)
    (htarget : s.switchTarget env ev = some (name, x, y))
    (hclient : s.clients.lookup name = some client) (hover : given.activeClient = some name)
    (hlookup : given.clients = s.clients) :
    InputOutcome env ev s conns (given.sendOrDeactivate conns name (Message.switchToClient x y)).1
      (given.sendOrDeactivate conns name (Message.switchToClient x y)).2 := by
  have hclient' : given.clients.lookup name = some client := by
    rw [hlookup]
    exact hclient
  unfold sendOrDeactivate
  simp only [sendTo_registered hclient']
  -- closed: the handover is taken back; full: it is not
  by_cases hended : (conns client.tx).writer = .ended
  · rw [trySend_ended hended]
    refine .kept ?_ (Appends.refl s.clients conns)
    show (given.deactivate name).activeClient = s.activeClient
    rw [deactivate_of_active hover, hidle]
  · by_cases hroom : (conns client.tx).queue.length < CLIENT_QUEUE
    · rw [trySend_room hended hroom]
      exact .switched hidle htarget hover hclient hended hroom rfl
    · rw [trySend_full hended hroom]
      exact .dropped hidle htarget hover hclient hended hroom rfl

theorem handleInput_outcome (env : Env ConnId) (hcoherent : Coherent s) (ev : CaptureEvent) :
    InputOutcome env ev s conns (s.handleInput env conns ev).1 (s.handleInput env conns ev).2 := by
  rcases hactive : s.activeClient with _ | name
  · rcases handleInput_idle hactive env conns ev with hsame | ⟨dx, dy, _, hmoved | hover⟩
    · rw [hsame]
      exact .kept rfl (Appends.refl s.clients conns)
    · rw [hmoved]
      exact .kept rfl (Appends.refl s.clients conns)
    · obtain ⟨name, x, y, htarget, hover⟩ := hover
      obtain ⟨client, hclient⟩ := Option.isSome_iff_exists.mp
        (AList.lookup_isSome.mpr (switchTarget_registered htarget))
      rw [hover]
      refine switch_outcome hactive htarget hclient ?_ ?_
      · rfl
      · rfl
  · obtain ⟨client, hclient⟩ := Option.isSome_iff_exists.mp
      (AList.lookup_isSome.mpr (hcoherent.registered name hactive))
    cases ev with
    | key code value => exact forwardToActive_outcome hactive hclient (by nofun) true
    | mouseButton code value => exact forwardToActive_outcome hactive hclient (by nofun) true
    | mouseScroll dx dy => exact forwardToActive_outcome hactive hclient (by nofun) false
    | mouseMove dx dy =>
        have hmoved : (s.moveCursor dx dy).activeClient = some name := hactive
        unfold handleInput
        simp only [hmoved]
        exact forwardMotion_outcome hactive hclient dx dy

/-- A message from a client: a `SwitchToServer` gives control back, nothing else touches it. -/
theorem handleClientMessage_outcome (env : Env ConnId) (s : Server ConnId) (conns : Conns)
    (name : String) (msg : Message) :
    (msg.msgType = .switchToServer ∧
      s.handleClientMessage env conns name msg = (s.deactivate name, conns)) ∨
    (msg.msgType ≠ .switchToServer ∧
      (s.handleClientMessage env conns name msg).1.activeClient = s.activeClient ∧
      Quiet s.clients conns (s.handleClientMessage env conns name msg).2) := by
  unfold handleClientMessage
  split
  · rename_i htype
    refine Or.inl ⟨htype, ?_⟩
    split
    · rfl
    · rename_i hne
      rw [deactivate_of_ne hne]
  · rename_i htype
    refine Or.inr ⟨by rw [htype]; nofun, ?_⟩
    split
    · exact ⟨rfl, appends_sendEach _ _ _ nofun⟩
    · exact ⟨rfl, Appends.refl s.clients conns⟩
  · rename_i hswitch _
    exact Or.inr ⟨hswitch, rfl, Appends.refl s.clients conns⟩

theorem appends_broadcastClipboard (env : Env ConnId) (s : Server ConnId) (conns : Conns)
    (content : String) (hmsg : P (Message.clipboardData content)) :
    Appends s.clients P conns (s.broadcastClipboard env conns content) := by
  unfold broadcastClipboard
  split
  · exact Appends.refl s.clients conns
  · exact appends_sendEach _ _ _ hmsg

/-! ## What an event can queue -/

/-- The kinds of messages that an event can queue. -/
def MayQueue (msg : Message) : ServerEvent ConnId → Prop
  | .input (.key code value) => msg = Message.keyEvent code value ∨ msg.msgType = .mouseMove
  | .input (.mouseButton code value) =>
      msg = Message.mouseButton code value ∨ msg.msgType = .mouseMove
  | .input (.mouseScroll _ _) => msg.msgType = .mouseScroll ∨ msg.msgType = .mouseMove
  | .input (.mouseMove _ _) => msg.msgType = .mouseMove ∨ msg.msgType = .switchToClient
  | .clientMessage _ _ => msg.msgType = .clipboardData
  | .clipboardChanged _ => msg.msgType = .clipboardData
  | _ => False

theorem appends_sendOrDeactivate (s : Server ConnId) (conns : Conns) (name : String) {msg : Message}
    (hmsg : P msg) : Appends s.clients P conns (s.sendOrDeactivate conns name msg).2 := by
  unfold sendOrDeactivate
  simp only
  split
  · exact appends_sendTo s conns name hmsg
  · exact appends_sendTo s conns name hmsg

theorem appends_forwardToActive (s : Server ConnId) (conns : Conns) {msg : Message} (flush : Bool)
    (hmsg : P msg) (hmotion : ∀ x y dx dy, P (Message.mouseMove x y dx dy)) :
    Appends s.clients P conns (s.forwardToActive conns msg flush).2 := by
  rcases hactive : s.activeClient with _ | name
  · rw [forwardToActive_of_none hactive]
    exact Appends.refl s.clients conns
  · rw [forwardToActive_of_active hactive]
    split
    · have hfirst : Appends s.clients P conns ((s.setPending 0 0).sendTo conns name
          (Message.mouseMove s.mouseX s.mouseY s.pendingDx s.pendingDy)).2 :=
        appends_sendTo _ conns name (hmotion _ _ _ _)
      simp only
      split
      · exact hfirst.trans (appends_sendOrDeactivate (s.setPending 0 0) _ name hmsg)
      · exact hfirst
    · exact appends_sendOrDeactivate s conns name hmsg

theorem appends_handle (env : Env ConnId) (s : Server ConnId) (conns : Conns)
    (event : ServerEvent ConnId) :
    Appends s.clients (fun msg => MayQueue msg event) conns (s.handle env conns event).2 := by
  cases event with
  | newClient name position w hgt tx => exact Appends.refl s.clients conns
  | clientDisconnected name => exact Appends.refl s.clients conns
  | clipboardChanged content => exact appends_broadcastClipboard env s conns content rfl
  | clientMessage name msg =>
      show Appends _ _ conns (s.handleClientMessage env conns name msg).2
      unfold handleClientMessage
      split
      · split
        · exact Appends.refl s.clients conns
        · exact Appends.refl s.clients conns
      · split
        · exact appends_sendEach _ conns _ rfl
        · exact Appends.refl s.clients conns
      · exact Appends.refl s.clients conns
  | input ev =>
      cases ev with
      | key code value =>
          exact appends_forwardToActive s conns true (Or.inl rfl) fun _ _ _ _ => Or.inr rfl
      | mouseButton code value =>
          exact appends_forwardToActive s conns true (Or.inl rfl) fun _ _ _ _ => Or.inr rfl
      | mouseScroll dx dy =>
          exact appends_forwardToActive s conns false (Or.inl rfl) fun _ _ _ _ => Or.inr rfl
      | mouseMove dx dy =>
          show Appends _ _ conns (s.handleInput env conns (.mouseMove dx dy)).2
          unfold handleInput
          simp only
          split
          · rw [forwardMotion_eq]
            simp only
            split
            · split
              · exact appends_sendTo _ conns _ (Or.inl rfl)
              · exact appends_sendTo _ conns _ (Or.inl rfl)
            · exact Appends.refl s.clients conns
          · split
            · rw [switchTo_eq]
              exact appends_sendOrDeactivate _ conns _ (Or.inr rfl)
            · exact Appends.refl s.clients conns

end Server

end Bluecross
