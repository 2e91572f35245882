/-
# Bluecross.ClientProgram — the tasks of a client, and that the system's client is what they do.

`System` takes a client to be one loop that eats batches off the wire. The program is finer: a reader
task decodes messages and passes them on over a bounded channel, the clipboard watcher has a channel of
its own, and the main task selects among both, its heartbeat and the signals; when it has a message it
drains the channel with `try_recv`, one message after the other, while the reader goes on.

`ClientTasks` are these tasks beside a connection, whose `down` is here the wire before the reader,
whose `client` is what the main task owns, and whose `running` says that the main loop was not left.
Each of their steps is a step of the loop of `System` or none (`ClientTasks.follows`): the messages a
batch will take are those the reader holds, those in the channel and those already applied, and the
client of `System` is behind by the part of the batch that is done. The program keeps the rules that
`ConnStep.Honest` asks for, as nothing else is written by it.
-/
import Bluecross.Holder
import Bluecross.Lib.Simulation

namespace Bluecross

open Lib (LTS)

/-! ## The tasks of a client -/

/-- The depth of the channel from the reader to the main task. -/
def MSG_QUEUE : Nat := 4096

/-- The depth of the channel from the clipboard watcher to the main task. -/
def CLIP_QUEUE : Nat := 32

/-- What the reader task is doing. -/
inductive ClientReader where
  /-- In `receive`. -/
  | receiving
  /-- A message was received, and waits for room in the channel. -/
  | first (msg : Message)
  /-- About to take what else is in the buffer. -/
  | collecting
  /-- The buffered messages, passed on one by one. -/
  | rest (msg : Message) (msgs : List Message)
  | ended

namespace ClientReader

/-- The messages that are in the reader's hands. -/
def held : ClientReader → List Message
  | .first msg => [msg]
  | .rest msg msgs => msg :: msgs
  | _ => []

/-- The loop over buffered messages, and back to `receive` behind them. -/
def forwarding : List Message → ClientReader
  | [] => .receiving
  | msg :: msgs => .rest msg msgs

@[simp] theorem held_receiving : held .receiving = [] := rfl
@[simp] theorem held_first (msg : Message) : held (.first msg) = [msg] := rfl
@[simp] theorem held_collecting : held .collecting = [] := rfl
@[simp] theorem held_rest (msg : Message) (msgs : List Message) :
    held (.rest msg msgs) = msg :: msgs := rfl
@[simp] theorem held_ended : held .ended = [] := rfl

@[simp]
theorem held_forwarding (msgs : List Message) : (forwarding msgs).held = msgs := by
  cases msgs <;> rfl

end ClientReader

/-- What the main task is doing: it waits in `select!`, or it collects a batch. -/
inductive MainTask where
  | selecting
  /-- In the `try_recv` loop, with the motion so far. -/
  | draining (total : Int32 × Int32)

/-- The two tasks of a client and the channels to the main one. -/
structure ClientTasks where
  reader : ClientReader
  channel : List Message
  clips : List String
  main : MainTask

/-- The tasks when the main loop begins. -/
def ClientTasks.new : ClientTasks where
  reader := .receiving
  channel := []
  clips := []
  main := .selecting

/-- A step of one of the tasks. -/
inductive TaskStep where
  /-- The reader decodes a message. -/
  | received
  /-- The reader passes a message on. -/
  | passed
  /-- `receive_all_buffered`: so many complete messages are in the buffer. -/
  | buffered (count : Nat)
  /-- The stream ends, or `receive` fails. -/
  | streamEnds
  /-- The clipboard watcher reports a change. -/
  | copied (content : String)
  /-- The heartbeat ticks; whether it can be written. -/
  | heartbeat (sendOk : Bool)
  /-- A change of the clipboard is sent. -/
  | clip (sendOk : Bool)
  /-- The main task receives a message. -/
  | recv (now : Instant)
  /-- `try_recv` yields one more. -/
  | tryRecv (now : Instant)
  /-- `try_recv` yields none: the motion is used. -/
  | drained (exit : ExitClock) (sendOk : Bool)
  /-- `recv` finds the reader gone: connection lost. -/
  | lost
  /-- SIGTERM or SIGINT. -/
  | signal

/-- `send` and `flush`; a failure leaves `run_async`, and the devices go with it. -/
def Conn.clientWrites (k : Conn) (msg : Message) (sendOk : Bool) : Conn :=
  if sendOk then { k with up := k.up ++ [msg] } else k.stopClient

/-- The end of a batch: its motion is used, and a hand-back is written. -/
def Conn.afterBatch (k : Conn) (exit : ExitClock) (total : Int32 × Int32) (sendOk : Bool) : Conn :=
  let (client, handsBack) := k.client.useMotion exit total
  let k := { k with client := client }
  if handsBack then k.clientWrites Message.switchToServer sendOk else k

namespace ClientTasks

/-- The steps of the tasks. The runtime drops all of them when the main loop was left. -/
def next (t : ClientTasks) (k : Conn) (step : TaskStep) : Option (Conn × ClientTasks) :=
  if ¬ k.running then none
  else
    match step with
    | .received =>
        match t.reader, k.down with
        | .receiving, msg :: down => some ({ k with down := down }, { t with reader := .first msg })
        | _, _ => none
    | .passed =>
        if t.channel.length < MSG_QUEUE then
          match t.reader with
          | .first msg =>
              some (k, { t with reader := .collecting, channel := t.channel ++ [msg] })
          | .rest msg msgs =>
              some (k, { t with reader := .forwarding msgs, channel := t.channel ++ [msg] })
          | _ => none
        else none
    | .buffered count =>
        match t.reader with
        | .collecting =>
            some ({ k with down := k.down.drop count },
              { t with reader := .forwarding (k.down.take count) })
        | _ => none
    | .streamEnds =>
        match t.reader with
        | .receiving => some (k, { t with reader := .ended })
        | _ => none
    | .copied content =>
        if k.client.state.config.clipboardSharing ∧ t.clips.length < CLIP_QUEUE then
          some (k, { t with clips := t.clips ++ [content] })
        else none
    | .heartbeat sendOk =>
        match t.main with
        | .selecting => some (k.clientWrites Message.heartbeat sendOk, t)
        | _ => none
    | .clip sendOk =>
        match t.main, t.clips with
        | .selecting, content :: clips =>
            some (k.clientWrites (Message.clipboardData content) sendOk, { t with clips := clips })
        | _, _ => none
    | .recv now =>
        match t.main, t.channel with
        | .selecting, msg :: channel =>
            let (client, total) := k.client.applyMessage msg now
            some ({ k with client := client }, { t with channel := channel, main := .draining total })
        | _, _ => none
    | .tryRecv now =>
        match t.main, t.channel with
        | .draining total, msg :: channel =>
            let (client, dx, dy) := k.client.applyMessage msg now
            some ({ k with client := client },
              { t with channel := channel, main := .draining (total.1 + dx, total.2 + dy) })
        | _, _ => none
    | .drained exit sendOk =>
        match t.main, t.channel with
        | .draining total, [] =>
            some (k.afterBatch exit total sendOk, { t with main := .selecting })
        | _, _ => none
    | .lost =>
        match t.main, t.channel, t.reader with
        | .selecting, [], .ended => some (k.stopClient, t)
        | _, _, _ => none
    | .signal =>
        match t.main with
        | .selecting => some (k.stopClient, t)
        | _ => none

/-- The steps as a relation: what enables them and what they leave. -/
inductive Step (t : ClientTasks) (k : Conn) : TaskStep → Conn → ClientTasks → Prop where
  | received {msg : Message} {down : List Message} :
      k.running = true → t.reader = .receiving → k.down = msg :: down →
      Step t k .received { k with down := down } { t with reader := .first msg }
  | passedFirst {msg : Message} :
      k.running = true → t.channel.length < MSG_QUEUE → t.reader = .first msg →
      Step t k .passed k { t with reader := .collecting, channel := t.channel ++ [msg] }
  | passedRest {msg : Message} {msgs : List Message} :
      k.running = true → t.channel.length < MSG_QUEUE → t.reader = .rest msg msgs →
      Step t k .passed k { t with reader := .forwarding msgs, channel := t.channel ++ [msg] }
  | buffered {count : Nat} :
      k.running = true → t.reader = .collecting →
      Step t k (.buffered count) { k with down := k.down.drop count }
        { t with reader := .forwarding (k.down.take count) }
  | streamEnds :
      k.running = true → t.reader = .receiving → Step t k .streamEnds k { t with reader := .ended }
  | copied {content : String} :
      k.running = true → k.client.state.config.clipboardSharing = true → t.clips.length < CLIP_QUEUE →
      Step t k (.copied content) k { t with clips := t.clips ++ [content] }
  | heartbeat {sendOk : Bool} :
      k.running = true → t.main = .selecting →
      Step t k (.heartbeat sendOk) (k.clientWrites Message.heartbeat sendOk) t
  | clip {sendOk : Bool} {content : String} {clips : List String} :
      k.running = true → t.main = .selecting → t.clips = content :: clips →
      Step t k (.clip sendOk) (k.clientWrites (Message.clipboardData content) sendOk)
        { t with clips := clips }
  | recv {now : Instant} {msg : Message} {channel : List Message} :
      k.running = true → t.main = .selecting → t.channel = msg :: channel →
      Step t k (.recv now) { k with client := (k.client.applyMessage msg now).1 }
        { t with channel := channel, main := .draining (k.client.applyMessage msg now).2 }
  | tryRecv {now : Instant} {total : Int32 × Int32} {msg : Message} {channel : List Message} :
      k.running = true → t.main = .draining total → t.channel = msg :: channel →
      Step t k (.tryRecv now) { k with client := (k.client.applyMessage msg now).1 }
        { t with
          channel := channel
          main := .draining (total + (k.client.applyMessage msg now).2) }
  | drained {exit : ExitClock} {sendOk : Bool} {total : Int32 × Int32} :
      k.running = true → t.main = .draining total → t.channel = [] →
      Step t k (.drained exit sendOk) (k.afterBatch exit total sendOk) { t with main := .selecting }
  | lost :
      k.running = true → t.main = .selecting → t.channel = [] → t.reader = .ended →
      Step t k .lost k.stopClient t
  | signal : k.running = true → t.main = .selecting → Step t k .signal k.stopClient t

theorem step_of_next {t t' : ClientTasks} {k k' : Conn} {step : TaskStep}
    (h : t.next k step = some (k', t')) : t.Step k step k' t' := by
  have hrunning : k.running = true := by
    by_contra hstopped
    simp [next, hstopped] at h
  unfold next at h
  rw [if_neg (by simp [hrunning])] at h
  cases step with
  | received =>
      simp only at h
      split at h
      · cases h
        exact .received hrunning ‹_› ‹_›
      · cases h
  | passed =>
      simp only at h
      split at h
      · split at h
        · cases h
          exact .passedFirst hrunning ‹_› ‹_›
        · cases h
          exact .passedRest hrunning ‹_› ‹_›
        · cases h
      · cases h
  | buffered count =>
      simp only at h
      split at h
      · cases h
        exact .buffered hrunning ‹_›
      · cases h
  | streamEnds =>
      simp only at h
      split at h
      · cases h
        exact .streamEnds hrunning ‹_›
      · cases h
  | copied content =>
      simp only at h
      split at h
      · rename_i hroom
        cases h
        exact .copied hrunning hroom.1 hroom.2
      · cases h
  | heartbeat sendOk =>
      simp only at h
      split at h
      · cases h
        exact .heartbeat hrunning ‹_›
      · cases h
  | clip sendOk =>
      simp only at h
      split at h
      · cases h
        exact .clip hrunning ‹_› ‹_›
      · cases h
  | recv now =>
      simp only at h
      split at h
      · cases h
        exact .recv hrunning ‹_› ‹_›
      · cases h
  | tryRecv now =>
      simp only at h
      split at h
      · cases h
        exact .tryRecv hrunning ‹_› ‹_›
      · cases h
  | drained exit sendOk =>
      simp only at h
      split at h
      · cases h
        exact .drained hrunning ‹_› ‹_›
      · cases h
  | lost =>
      simp only at h
      split at h
      · cases h
        exact .lost hrunning ‹_› ‹_› ‹_›
      · cases h
  | signal =>
      simp only at h
      split at h
      · cases h
        exact .signal hrunning ‹_›
      · cases h

end ClientTasks

/-! ## One connection -/

/-- The connection with messages put back in front of the wire, and another client. -/
def Conn.overlay (front : List Message) (start : Client) (k : Conn) : Conn :=
  { k with down := front ++ k.down, client := start }

/-- The messages of the batch that is being taken, and the client before it. -/
structure Underway where
  taken : List (Message × Instant)
  start : Client

namespace ClientTasks

variable {t t' : ClientTasks} {k k' : Conn} {u : Underway} {step : TaskStep}

/-- The main task has come so far with the batch: to the client and the motion there are. -/
def Reached (t : ClientTasks) (k : Conn) (u : Underway) : Prop :=
  match t.main with
  | .selecting => u = ⟨[], k.client⟩
  | .draining total => ∃ first rest, u.taken = first :: rest ∧
      ∀ exit, u.start.applyBatch ⟨first, rest, exit⟩ = (k.client, total)

/-- The messages between the wire and the client that is before the batch. -/
def front (t : ClientTasks) (u : Underway) : List Message :=
  u.taken.map Prod.fst ++ (t.channel ++ t.reader.held)

/-- The connection as `System` has it. -/
def mirror (t : ClientTasks) (k : Conn) (u : Underway) : Conn := k.overlay (t.front u) u.start

end ClientTasks

namespace Client

/-- One more message in the `try_recv` loop. -/
theorem applyRest_concat (c : Client) (total : Int32 × Int32) (rest : List (Message × Instant))
    (m : Message × Instant) :
    c.applyRest total (rest ++ [m])
      = (((c.applyRest total rest).1.applyMessage m.1 m.2).1,
          (c.applyRest total rest).2 + ((c.applyRest total rest).1.applyMessage m.1 m.2).2) := by
  induction rest generalizing c total with
  | nil => rfl
  | cons first rest ih => exact ih _ _

theorem applyBatch_concat {c c' : Client} {total : Int32 × Int32} {first : Message × Instant}
    {rest : List (Message × Instant)} {exit : ExitClock}
    (h : c.applyBatch ⟨first, rest, exit⟩ = (c', total)) (m : Message × Instant) :
    c.applyBatch ⟨first, rest ++ [m], exit⟩
      = ((c'.applyMessage m.1 m.2).1, total + (c'.applyMessage m.1 m.2).2) := by
  have hrest : (c.applyMessage first.1 first.2).1.applyRest (c.applyMessage first.1 first.2).2 rest
      = (c', total) := h
  show (c.applyMessage first.1 first.2).1.applyRest (c.applyMessage first.1 first.2).2 (rest ++ [m])
    = _
  rw [applyRest_concat, hrest]

end Client

/-- A batch can be taken off a wire that begins with its messages. -/
theorem Batch.take_of_messages (b : Batch) (wire : List Message) :
    Batch.take b.first.2 (b.rest.map Prod.snd) b.exit (b.messages ++ wire) = some (b, wire) := by
  obtain ⟨⟨msg, now⟩, rest, exit⟩ := b
  have hfit : (rest.map Prod.snd).length ≤ (rest.map Prod.fst ++ wire).length := by simp
  have hfirst : (rest.map Prod.fst ++ wire).take (rest.map Prod.snd).length = rest.map Prod.fst := by
    simp
  have hlast : (rest.map Prod.fst ++ wire).drop (rest.map Prod.snd).length = wire := by
    simp
  have hzip : (rest.map Prod.fst).zip (rest.map Prod.snd) = rest := by
    rw [List.zip_map', List.map_id']
  show Batch.take now (rest.map Prod.snd) exit (msg :: (rest.map Prod.fst ++ wire)) = _
  simp only [Batch.take, hfit, if_true, hfirst, hlast, hzip]

/-- What the client side of a connection does by itself. -/
def ConnStep.byClient : ConnStep → Bool
  | .send _ => true
  | .batch .. => true
  | .stop => true
  | _ => false

/-- A step of the client program's loop, or none. -/
inductive Conn.Follows (k : Conn) : Conn → Prop where
  | same : Follows k k
  | step {k' : Conn} (step : ConnStep) :
      step.byClient = true → step.Honest → k.next step = some k' → Follows k k'

namespace Conn

variable {k : Conn} {front : List Message} {start : Client} {msg : Message}

/-- A message that is written, or the end, where the client is not behind. -/
theorem follows_clientWrites (hrunning : k.running = true)
    (honest : msg.msgType = .heartbeat ∨ msg.msgType = .clipboardData) (sendOk : Bool) :
    (k.overlay front k.client).Follows
      ((k.clientWrites msg sendOk).overlay front (k.clientWrites msg sendOk).client) := by
  cases sendOk with
  | true =>
      refine .step (.send msg) rfl honest ?_
      show (if k.running then _ else none) = _
      rw [hrunning]
      rfl
  | false =>
      refine .step .stop rfl trivial ?_
      show (if k.running then _ else none) = _
      rw [hrunning]
      rfl

theorem follows_stop (hrunning : k.running = true) :
    (k.overlay front k.client).Follows (k.stopClient.overlay front k.stopClient.client) := by
  refine .step .stop rfl trivial ?_
  show (if k.running then _ else none) = _
  rw [hrunning]
  rfl

/-- A batch that was taken message by message, and its end. -/
theorem follows_batch (front : List Message) (hrunning : k.running = true) {b : Batch} {total : Int32 × Int32}
    (hbatch : start.applyBatch b = (k.client, total)) (sendOk : Bool) :
    (k.overlay (b.messages ++ front) start).Follows
      ((k.afterBatch b.exit total sendOk).overlay front (k.afterBatch b.exit total sendOk).client) := by
  refine .step (.batch b.first.2 (b.rest.map Prod.snd) b.exit sendOk) rfl trivial ?_
  have hdown : (k.overlay (b.messages ++ front) start).down = b.messages ++ (front ++ k.down) :=
    List.append_assoc ..
  have hhandled : start.handleBatch b = k.client.useMotion b.exit total := by
    unfold Client.handleBatch
    rw [hbatch]
  show (if k.running then _ else none) = _
  rw [hrunning, hdown, Batch.take_of_messages]
  show some (takeBatch (k.overlay (b.messages ++ front) start) b (front ++ k.down) sendOk) = _
  have hsame : (k.overlay (b.messages ++ front) start).client = start := rfl
  unfold takeBatch afterBatch
  rw [hsame, hhandled]
  rcases hback : (k.client.useMotion b.exit total).2 with _ | _
  · simp [hback, overlay]
  · cases sendOk <;> simp [hback, overlay, clientWrites, stopClient]

end Conn

namespace ClientTasks

variable {t t' : ClientTasks} {k k' : Conn} {u : Underway} {step : TaskStep}

/-- The reader moves messages along, without a change of what the client will take. -/
theorem follows_moved (hu : t.Reached k u) (hclient : k'.client = k.client) (hmain : t'.main = t.main)
    (hrest : { k' with down := k.down } = k)
    (hmoved : t'.channel ++ t'.reader.held ++ k'.down = t.channel ++ t.reader.held ++ k.down) :
    ∃ u', t'.Reached k' u' ∧ (t.mirror k u).Follows (t'.mirror k' u') := by
  refine ⟨u, ?_, ?_⟩
  · unfold Reached
    rw [hmain, hclient]
    exact hu
  · have hfront : t'.front u ++ k'.down = t.front u ++ k.down := by
      unfold front
      simp only [List.append_assoc] at hmoved ⊢
      rw [hmoved]
    have hsame : t'.mirror k' u = t.mirror k u := by
      show ({ k' with down := t'.front u ++ k'.down, client := u.start } : Conn) = _
      rw [hfront]
      show ({ ({ k' with down := k.down } : Conn) with
        down := t.front u ++ k.down, client := u.start } : Conn) = _
      rw [hrest]
      rfl
    rw [hsame]
    exact .same

/-- The main task has applied one more message to its client. -/
theorem follows_applied {msg : Message} {channel : List Message} {total : Int32 × Int32}
    (now : Instant) (hu : t.Reached k u) (hchannel : t.channel = msg :: channel)
    (htotal : t.main = .selecting ∧ total = 0 ∨ t.main = .draining total) :
    ∃ u', ClientTasks.Reached
          { t with
            channel := channel
            main := .draining (total + (k.client.applyMessage msg now).2) }
          { k with client := (k.client.applyMessage msg now).1 } u' ∧
      (t.mirror k u).Follows (ClientTasks.mirror
        { t with
          channel := channel
          main := .draining (total + (k.client.applyMessage msg now).2) }
        { k with client := (k.client.applyMessage msg now).1 } u') := by
  refine ⟨⟨u.taken ++ [(msg, now)], u.start⟩, ?_, ?_⟩
  · rcases htotal with ⟨hmain, rfl⟩ | hmain
    · simp only [Reached, hmain] at hu
      subst hu
      refine ⟨(msg, now), [], rfl, ?_⟩
      intro exit
      rw [zero_add]
      rfl
    · simp only [Reached, hmain] at hu
      obtain ⟨first, rest, htaken, hbatch⟩ := hu
      refine ⟨first, rest ++ [(msg, now)], by rw [htaken]; rfl, ?_⟩
      intro exit
      exact Client.applyBatch_concat (hbatch exit) (msg, now)
  · -- the message is counted as taken instead of as waiting
    have hfront : u.taken.map Prod.fst ++ (t.channel ++ t.reader.held)
        = (u.taken ++ [(msg, now)]).map Prod.fst ++ (channel ++ t.reader.held) := by
      rw [hchannel]
      simp
    show (k.overlay (u.taken.map Prod.fst ++ (t.channel ++ t.reader.held)) u.start).Follows _
    rw [hfront]
    exact .same

/-- While the main task selects, what it does next follows from the client of the system. -/
theorem follows_selecting (hu : t.Reached k u) (hmain : t.main = .selecting)
    (hmain' : t'.main = .selecting) (hfront : t'.front ⟨[], k'.client⟩ = t.front ⟨[], k.client⟩)
    (h : ∀ front, (k.overlay front k.client).Follows (k'.overlay front k'.client)) :
    ∃ u', t'.Reached k' u' ∧ (t.mirror k u).Follows (t'.mirror k' u') := by
  simp only [Reached, hmain] at hu
  subst hu
  refine ⟨⟨[], k'.client⟩, by simp only [Reached, hmain'], ?_⟩
  unfold mirror
  rw [hfront]
  exact h _

/-- Each step of the tasks is a step of the loop that takes whole batches, or none. -/
theorem follows (h : t.Step k step k' t') (hu : t.Reached k u) :
    ∃ u', t'.Reached k' u' ∧ (t.mirror k u).Follows (t'.mirror k' u') := by
  cases h with
  | received _ hreader hdown => exact follows_moved hu rfl rfl rfl (by simp [hreader, hdown])
  | passedFirst _ _ hreader => exact follows_moved hu rfl rfl rfl (by simp [hreader])
  | passedRest _ _ hreader => exact follows_moved hu rfl rfl rfl (by simp [hreader])
  | buffered _ hreader => exact follows_moved hu rfl rfl rfl (by simp [hreader])
  | streamEnds _ hreader => exact follows_moved hu rfl rfl rfl (by simp [hreader])
  | copied _ _ _ => exact follows_moved hu rfl rfl rfl rfl
  | @heartbeat sendOk hrunning hmain =>
      exact follows_selecting hu hmain hmain rfl fun front =>
        Conn.follows_clientWrites hrunning (Or.inl rfl) sendOk
  | @clip sendOk content clips hrunning hmain _ =>
      exact follows_selecting hu hmain hmain rfl fun front =>
        Conn.follows_clientWrites hrunning (Or.inr rfl) sendOk
  | @recv now msg channel _ hmain hchannel =>
      have hstep := follows_applied now hu hchannel (Or.inl ⟨hmain, rfl⟩)
      rwa [zero_add] at hstep
  | @tryRecv now total msg channel _ hmain hchannel =>
      exact follows_applied now hu hchannel (Or.inr hmain)
  | @drained exit sendOk total hrunning hmain hchannel =>
      simp only [Reached, hmain] at hu
      obtain ⟨first, rest, htaken, hbatch⟩ := hu
      refine ⟨_, rfl, ?_⟩
      have hfront : t.front u = Batch.messages ⟨first, rest, exit⟩ ++ t.reader.held := by
        unfold front Batch.messages
        rw [htaken, hchannel]
        rfl
      have hstep := Conn.follows_batch t.reader.held hrunning (hbatch exit) sendOk
      unfold mirror
      rw [hfront]
      unfold front
      rw [hchannel]
      exact hstep
  | lost hrunning hmain _ _ =>
      exact follows_selecting hu hmain hmain rfl fun front => Conn.follows_stop hrunning
  | signal hrunning hmain =>
      exact follows_selecting hu hmain hmain rfl fun front => Conn.follows_stop hrunning

end ClientTasks

end Bluecross
