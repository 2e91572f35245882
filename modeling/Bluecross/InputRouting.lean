/-
# Bluecross.InputRouting — where a key or a button goes, from the device to a machine.

The kernel shows an event of a device to the local session unless the devices are grabbed, and to the
capture task in any case. Captured events wait in two channels, the capture task's and the server's
event queue, and are routed when `handle_input` takes them out: to the active client, or to nobody. So
the session is chosen when an event is made and the client when it is handled. A `Transition` is an
event with what the session made of it; a `Route` is a transition with what the server made of it.

`routed_once_iff` says when the two choices fit together, for every transition of every run, and that
no transition is lost or doubled on its way.
-/
import Bluecross.Forwarding
import Bluecross.Presses

namespace Bluecross

open Lib (LTS)

/-- A device event, and whether the local session saw it. -/
structure Transition where
  ev : CaptureEvent
  seenLocally : Bool

/-- An entry of the server's event queue: forwarded by the capture task, or sent by another task. -/
inductive Incoming (τ : Type) where
  | captured (t : Transition)
  | other (event : ServerEvent τ)

/-- What the event loop sees. -/
def Incoming.event {τ : Type} : Incoming τ → ServerEvent τ
  | captured t => .input t.ev
  | other event => event

/-- The server with the two channels in front of it. -/
structure Station (τ : Type) where
  server : Server τ
  queues : Recorder τ
  captured : List Transition
  events : List (Incoming τ)

/-- What became of a transition: the queue of the client that was active when it was handled, and
where it was queued. -/
structure Route (τ : Type) where
  transition : Transition
  activeTx : Option τ
  queued : List (Attempt τ)

/-- How many machines a transition reached. -/
def Route.machines {τ : Type} (r : Route τ) : Nat :=
  r.transition.seenLocally.toNat + r.queued.length

namespace Station

variable {τ : Type}

/-- A step of the station. -/
inductive Label (τ : Type) where
  /-- A device event is made. -/
  | make (ev : CaptureEvent)
  /-- The capture task forwards the first event of its channel. -/
  | forward
  /-- Another task sends an event. -/
  | post (event : ServerEvent τ)
  /-- The event loop handles the first event of its queue. -/
  | serve (env : Env τ)

/-- A transition under the present state of the grab. -/
def made (s : Station τ) (ev : CaptureEvent) : Transition := ⟨ev, !s.server.grabbed⟩

/-- What a step makes of the station. -/
def next (s : Station τ) : Label τ → Option (Station τ)
  | .make ev => some { s with captured := s.captured ++ [s.made ev] }
  | .forward =>
      match s.captured with
      | [] => none
      | t :: captured => some { s with captured := captured, events := s.events ++ [.captured t] }
  | .post event =>
      match event with
      -- input comes from the capture task only
      | .input _ => none
      | event => some { s with events := s.events ++ [.other event] }
  | .serve env =>
      match s.events with
      | [] => none
      | e :: events =>
          let handled := s.server.handle env s.queues e.event
          some { s with server := handled.1, queues := handled.2, events := events }

/-- A station without clients and without input. -/
def system (config : ServerConfig) : LTS (Station τ) (Label τ) where
  init s := (∃ clipboard now, s.server = Server.new config clipboard now) ∧ s.captured = [] ∧
    s.events = []
  next := next

/-! ## What is kept of a run -/

/-- The transitions that still wait, the oldest first. -/
def waiting (s : Station τ) : List Transition :=
  s.events.filterMap (fun e => match e with | .captured t => some t | .other _ => none) ++ s.captured

/-- The calls that handling an event makes. -/
def sent (s : Station τ) (env : Env τ) (event : ServerEvent τ) : List (Attempt τ) :=
  (s.server.handle env s.queues event).2.log.drop s.queues.log.length

/-- The keys and buttons that were queued. -/
def pressesQueued (sent : List (Attempt τ)) : List (Attempt τ) :=
  sent.filter fun a => a.answer = .ok ∧ (a.msg.msgType = .keyEvent ∨ a.msg.msgType = .mouseButton)

/-- The transitions made so far, and the routes of those that were handled. -/
structure Log (τ : Type) where
  made : List Transition
  routes : List (Route τ)

/-- What was made is noted, and where each event went when it was handled. -/
def note (s : Station τ) (l : Label τ) (log : Log τ) : Log τ :=
  match l, s.events with
  | .make ev, _ => { log with made := log.made ++ [s.made ev] }
  | .serve env, .captured t :: _ =>
      { log with routes := log.routes ++
          [⟨t, s.server.activeTx, pressesQueued (s.sent env (.input t.ev))⟩] }
  | _, _ => log

/-- The notes of a run. -/
def log (config : ServerConfig) (s : Station τ) (ls : List (Label τ)) : Log τ :=
  (system config).record note s ls ⟨[], []⟩

/-- No call finds a queue full or closed, and no client is reported gone. -/
def Smooth (s : Station τ) : Label τ → Prop
  | .post event => ∀ name, event ≠ .clientDisconnected name
  | .serve env => ∀ e events, s.events = e :: events → ∀ a ∈ s.sent env e.event, a.answer = .ok
  | _ => True

end Station

/-! ## Forwarding one key or button -/

theorem isPress_of_message {ev : CaptureEvent} {msg : Message} (hev : ev.pressed ≠ none)
    (hmsg : ev.message = some msg) : msg.isPress := by
  cases ev with
  | key code value => exact Or.inl (by rw [← Option.some.inj hmsg]; rfl)
  | mouseButton code value => exact Or.inr (by rw [← Option.some.inj hmsg]; rfl)
  | mouseMove => exact absurd rfl hev
  | mouseScroll => exact absurd rfl hev

namespace Server

variable {τ : Type} {s : Server τ} {n : String} {c : ClientInfo τ}

theorem sendOrDeactivate_queues (r : Recorder τ) (name : String) (msg : Message) :
    (s.sendOrDeactivate r name msg).2 = (s.sendTo r name msg).2 := by
  unfold sendOrDeactivate
  simp only
  split <;> rfl

/-- If every call is accepted, forwarding to the active client ends with the message itself, and at
most the pending motion goes ahead of it. -/
theorem forwardToActive_accepted (hactive : s.activeClient = some n)
    (hclient : s.clients.lookup n = some c) (r : Recorder τ) (msg : Message) (flush : Bool)
    (hok : ∀ a ∈ (s.forwardToActive r msg flush).2.log.drop r.log.length, a.answer = .ok) :
    ∃ motion, (∀ a ∈ motion, a.msg.msgType = .mouseMove) ∧
      (s.forwardToActive r msg flush).2.log.drop r.log.length = motion ++ [⟨c.tx, msg, .ok⟩] := by
  rw [forwardToActive_of_active hactive] at hok ⊢
  split at hok
  -- the pending motion goes first, and its answer is accepted too
  · rename_i hflush
    obtain ⟨answer, hlog, hfailed⟩ := sendTo_log (s := s.setPending 0 0) hclient r
      (Message.mouseMove s.mouseX s.mouseY s.pendingDx s.pendingDy)
    rw [if_pos hflush]
    simp only at hok ⊢
    split at hok
    · rename_i hsent
      rw [if_pos hsent]
      obtain ⟨answer', hlog', _⟩ := sendTo_log (s := s.setPending 0 0) hclient
        ((s.setPending 0 0).sendTo r n
          (Message.mouseMove s.mouseX s.mouseY s.pendingDx s.pendingDy)).2 msg
      rw [sendOrDeactivate_queues, hlog', hlog, List.append_assoc, List.drop_left] at hok ⊢
      have hlast : answer' = .ok := hok ⟨c.tx, msg, answer'⟩ (by simp)
      rw [hlast]
      refine ⟨_, ?_, rfl⟩
      intro a ha
      rw [List.mem_singleton.mp ha]
      rfl
    · -- a motion that was not accepted
      rename_i hsent
      rw [hlog, List.drop_left] at hok
      have hclosed := hfailed (Bool.not_eq_true _ ▸ hsent)
      have hanswer := hok _ (List.mem_singleton_self _)
      rw [hclosed] at hanswer
      cases hanswer
  -- nothing is pending, or the message does not wait for it
  · rename_i hflush
    obtain ⟨answer, hlog, _⟩ := sendTo_log hclient r msg
    rw [if_neg hflush, sendOrDeactivate_queues, hlog, List.drop_left]
    rw [sendOrDeactivate_queues, hlog, List.drop_left] at hok
    have hlast : answer = .ok := hok _ (List.mem_singleton_self _)
    rw [hlast]
    exact ⟨[], nofun, rfl⟩

end Server

namespace Station

variable {τ : Type}

/-- Of what forwarding queues only the message itself is a key or a button. -/
theorem pressesQueued_forwarded {motion : List (Attempt τ)} {tx : τ} {msg : Message}
    (hmotion : ∀ a ∈ motion, a.msg.msgType = .mouseMove) (hmsg : msg.isPress) :
    pressesQueued (motion ++ [⟨tx, msg, .ok⟩]) = [⟨tx, msg, .ok⟩] := by
  unfold pressesQueued
  rw [List.filter_append, List.filter_eq_nil_iff.mpr, List.nil_append]
  · have hpress : msg.msgType = .keyEvent ∨ msg.msgType = .mouseButton := hmsg
    simp only [List.filter_cons, hpress, and_self, decide_true, if_true, List.filter_nil]
  · intro a ha
    rw [hmotion a ha]
    simp

/-- A key or a button is queued to the client that is active when it is handled, once, and to nobody
when none is. -/
theorem pressesQueued_sent {s : Station τ} (hcoherent : Coherent s.server) (env : Env τ)
    {ev : CaptureEvent} (hev : ev.pressed ≠ none)
    (hok : ∀ a ∈ s.sent env (.input ev), a.answer = .ok) :
    (s.server.activeTx = none ∧ pressesQueued (s.sent env (.input ev)) = []) ∨
    ∃ tx msg, s.server.activeTx = some tx ∧ ev.message = some msg ∧
      pressesQueued (s.sent env (.input ev)) = [⟨tx, msg, .ok⟩] := by
  obtain ⟨msg, hmsg, hhandle⟩ : ∃ msg, ev.message = some msg ∧
      s.server.handle env s.queues (.input ev) = s.server.forwardToActive s.queues msg true := by
    cases ev with
    | key code value => exact ⟨_, rfl, rfl⟩
    | mouseButton code value => exact ⟨_, rfl, rfl⟩
    | mouseMove => exact absurd rfl hev
    | mouseScroll => exact absurd rfl hev
  unfold sent at hok ⊢
  rw [hhandle] at hok ⊢
  cases hactive : s.server.activeClient with
  | none =>
      left
      rw [Server.forwardToActive_of_none hactive, List.drop_length, Server.activeTx, hactive]
      exact ⟨rfl, rfl⟩
  | some n =>
      right
      obtain ⟨c, hclient⟩ := Option.isSome_iff_exists.mp
        (AList.lookup_isSome.mpr (hcoherent.registered n hactive))
      obtain ⟨motion, hmotion, hsent⟩ := Server.forwardToActive_accepted hactive hclient s.queues msg
        true hok
      refine ⟨c.tx, msg, ?_, hmsg, ?_⟩
      · rw [Server.activeTx, hactive, Option.bind_some, hclient, Option.map_some]
      · rw [hsent]
        exact pressesQueued_forwarded hmotion (isPress_of_message hev hmsg)

/-! ## Every run -/

/-- A key or a button was queued once to the active client, or to nobody when none was active. -/
def Routed (r : Route τ) : Prop :=
  r.transition.ev.pressed ≠ none →
    (r.activeTx = none ∧ r.queued = []) ∨
    ∃ tx msg, r.activeTx = some tx ∧ r.transition.ev.message = some msg ∧
      r.queued = [⟨tx, msg, .ok⟩]

theorem note_other {s : Station τ} {env : Env τ} {event : ServerEvent τ}
    {events : List (Incoming τ)} (hevents : s.events = .other event :: events) (log : Log τ) :
    note s (.serve env) log = log := by
  simp only [note, hevents]

theorem note_captured {s : Station τ} {env : Env τ} {t : Transition} {events : List (Incoming τ)}
    (hevents : s.events = .captured t :: events) (log : Log τ) :
    note s (.serve env) log = { log with routes := log.routes ++
      [⟨t, s.server.activeTx, pressesQueued (s.sent env (.input t.ev))⟩] } := by
  simp only [note, hevents]

/-- What holds along a run: transitions are handled in the order they are made. -/
structure Sorted (config : ServerConfig) (s : Station τ) (log : Log τ) : Prop where
  coherent : Coherent s.server
  config_eq : s.server.config = config
  order : log.made = log.routes.map Route.transition ++ s.waiting
  routed : ∀ r ∈ log.routes, Routed r

/-- Handling an event keeps the order, and routes a key or a button. -/
theorem Sorted.serve {config : ServerConfig} (hsized : config.Sized) {s : Station τ} {log : Log τ}
    {env : Env τ} {e : Incoming τ} {events : List (Incoming τ)} (h : Sorted config s log)
    (hevents : s.events = e :: events) (hok : ∀ a ∈ s.sent env e.event, a.answer = .ok) :
    Sorted config
      { s with
        server := (s.server.handle env s.queues e.event).1
        queues := (s.server.handle env s.queues e.event).2
        events := events }
      (note s (.serve env) log) := by
  obtain ⟨hcoherent, hconfig, horder, hrouted⟩ := h
  have hsized' : s.server.config.Sized := by
    rw [hconfig]
    exact hsized
  have hcoherent' : Coherent (s.server.handle env s.queues e.event).1 :=
    Server.coherent_handle hsized' hcoherent
  have hconfig' : (s.server.handle env s.queues e.event).1.config = config :=
    (Server.handle_config env s.server s.queues e.event).trans hconfig
  cases e with
  | other event =>
      rw [note_other hevents]
      refine ⟨hcoherent', hconfig', ?_, hrouted⟩
      show log.made = log.routes.map Route.transition ++ (List.filterMap _ events ++ s.captured)
      rw [horder, waiting, hevents]
      rfl
  | captured t =>
      rw [note_captured hevents]
      refine ⟨hcoherent', hconfig', ?_, ?_⟩
      · show log.made = (log.routes ++ [_]).map Route.transition
          ++ (List.filterMap _ events ++ s.captured)
        rw [horder, waiting, hevents, List.map_append, List.append_assoc]
        rfl
      · intro r hr
        rcases List.mem_append.mp hr with hold | hnew
        · exact hrouted r hold
        · rw [List.mem_singleton.mp hnew]
          intro hpressed
          exact pressesQueued_sent hcoherent env hpressed hok

theorem Sorted.step {config : ServerConfig} (hsized : config.Sized) {s s' : Station τ} {log : Log τ}
    {l : Label τ} (h : Sorted config s log) (hsmooth : s.Smooth l) (hnext : s.next l = some s') :
    Sorted config s' (note s l log) := by
  cases l with
  | make ev =>
      rw [← Option.some.inj hnext]
      refine ⟨h.coherent, h.config_eq, ?_, h.routed⟩
      show log.made ++ [s.made ev] = log.routes.map Route.transition ++ (_ ++ (s.captured ++ _))
      rw [h.order, waiting, List.append_assoc, List.append_assoc]
  | forward =>
      unfold next at hnext
      simp only at hnext
      split at hnext
      · cases hnext
      · rename_i t captured hcaptured
        rw [← Option.some.inj hnext]
        refine ⟨h.coherent, h.config_eq, ?_, h.routed⟩
        show log.made = log.routes.map Route.transition
          ++ (List.filterMap _ (s.events ++ _) ++ captured)
        rw [h.order, waiting, hcaptured, List.filterMap_append, List.append_assoc]
        rfl
  | post event =>
      have hs' : s' = { s with events := s.events ++ [.other event] } := by
        unfold next at hnext
        simp only at hnext
        split at hnext
        · cases hnext
        · exact (Option.some.inj hnext).symm
      rw [hs']
      refine ⟨h.coherent, h.config_eq, ?_, h.routed⟩
      show log.made = log.routes.map Route.transition
        ++ (List.filterMap _ (s.events ++ [.other event]) ++ s.captured)
      rw [h.order, waiting, List.filterMap_append]
      simp only [List.filterMap_cons, List.filterMap_nil, List.append_nil]
  | serve env =>
      unfold next at hnext
      simp only at hnext
      split at hnext
      · cases hnext
      · rename_i e events hevents
        rw [← Option.some.inj hnext]
        exact h.serve hsized hevents (hsmooth e events hevents)

/-- A key or a button reaches exactly one machine when the devices were grabbed as it was made and a
client is active as it is handled, or neither; and it never reaches two clients. No event is lost or
doubled in the channels. -/
theorem routed_once_iff (config : ServerConfig) (hsized : config.Sized) (s t : Station τ)
    (ls : List (Label τ)) (hinit : (system config).init s)
    (hrun : (system config).Steps Smooth s ls t) :
    (log config s ls).made = (log config s ls).routes.map Route.transition ++ t.waiting ∧
    ∀ r ∈ (log config s ls).routes, r.transition.ev.pressed ≠ none →
      (r.machines = 1 ↔ (r.transition.seenLocally = true ↔ r.activeTx = none)) ∧
      ((r.activeTx = none ∧ r.queued = []) ∨
        ∃ tx msg, r.activeTx = some tx ∧ r.transition.ev.message = some msg ∧
          r.queued = [⟨tx, msg, .ok⟩]) := by
  obtain ⟨⟨clipboard, now, hserver⟩, hcaptured, hevents⟩ := hinit
  have hsorted : Sorted config t (log config s ls) := by
    refine LTS.Steps.record_invariant (I := Sorted config) ?_ hrun (g := ⟨[], []⟩) ?_
    · intro s l s' log h hsmooth hnext
      exact h.step hsized hsmooth hnext
    · refine ⟨?_, ?_, ?_, nofun⟩
      · rw [hserver]
        exact Server.coherent_new hsized clipboard now
      · rw [hserver]
        rfl
      · rw [waiting, hcaptured, hevents]
        rfl
  refine ⟨hsorted.order, ?_⟩
  intro r hr hpressed
  have hrouted := hsorted.routed r hr hpressed
  refine ⟨?_, hrouted⟩
  unfold Route.machines
  rcases hrouted with ⟨hnobody, hqueued⟩ | ⟨tx, msg, hclient, _, hqueued⟩
  · rw [hnobody, hqueued]
    cases r.transition.seenLocally <;> simp
  · rw [hclient, hqueued]
    cases r.transition.seenLocally <;> simp

/-- The cursor is pushed over the laptop's edge, and a key goes down and up; the first `ahead` of its
events are made before the switch is handled. -/
def typing (ahead : Nat) : List (Label Unit) :=
  let env : Env Unit := ⟨0, HashOrder.entries Unit⟩
  let keys : List (Label Unit) := [.make (.key 30 1), .make (.key 30 0)]
  [.post (.newClient "laptop" .left 800 600 ()), .serve env, .make (.mouseMove (-1000) 0), .forward]
    ++ keys.take ahead ++ .serve env :: keys.drop ahead
    ++ [.forward, .forward, .serve env, .serve env]

/-- A station of the configuration of the examples, whose queues accept every message. -/
def start : Station Unit where
  server := Server.new Server.leftConfig ClipboardManager.new 0
  queues := ⟨fun _ => .ok, []⟩
  captured := []
  events := []

theorem accepted_of_all {sent : List (Attempt τ)}
    (h : (sent.all fun a => decide (a.answer = .ok)) = true) : ∀ a ∈ sent, a.answer = .ok :=
  fun a ha => of_decide_eq_true (List.all_eq_true.mp h a ha)

/-- A key pressed and let go after the switch was handled reaches the laptop alone. -/
theorem routed_once_iff_after :
    ∃ t, (system Server.leftConfig).exec start (typing 0) = some t ∧
      (log Server.leftConfig start (typing 0)).routes.map Route.machines = [1, 1, 1] ∧
      ∀ r ∈ (log Server.leftConfig start (typing 0)).routes, r.transition.ev.pressed ≠ none →
        (r.machines = 1 ↔ (r.transition.seenLocally = true ↔ r.activeTx = none)) := by
  refine ⟨_, rfl, rfl, ?_⟩
  have hsmooth : (system Server.leftConfig).Guarded Smooth start (typing 0) := by
    refine ⟨nofun, ?_, trivial, trivial, ?_, trivial, trivial, trivial, trivial, ?_, ?_, trivial⟩
    all_goals
      rintro e events heq
      cases heq
      exact accepted_of_all rfl
  intro r hr hpressed
  exact ((routed_once_iff Server.leftConfig ⟨by decide, by decide⟩ start _ (typing 0)
    ⟨⟨ClipboardManager.new, 0, rfl⟩, rfl, rfl⟩ (LTS.steps_of_exec rfl hsmooth)).2 r hr hpressed).1

/-- A key that goes down before the switch is handled is seen by the session and sent to the laptop. -/
theorem key_reaches_both :
    ¬ ∀ config : ServerConfig, config.Sized → ∀ (s t : Station Unit) (ls : List (Label Unit)),
      (system config).init s → (system config).Steps Smooth s ls t →
      ∀ r ∈ (log config s ls).routes, r.transition.ev.pressed ≠ none → r.machines = 1 := by
  intro hall
  have hsmooth : (system Server.leftConfig).Guarded Smooth start (typing 1) := by
    refine ⟨nofun, ?_, trivial, trivial, trivial, ?_, trivial, trivial, trivial, ?_, ?_, trivial⟩
    all_goals
      rintro e events heq
      cases heq
      exact accepted_of_all rfl
  have honce := hall Server.leftConfig ⟨by decide, by decide⟩ start _ (typing 1)
    ⟨⟨ClipboardManager.new, 0, rfl⟩, rfl, rfl⟩ (LTS.steps_of_exec rfl hsmooth)
  have hkey : (log Server.leftConfig start (typing 1)).routes[1]? =
      some ⟨⟨.key 30 1, true⟩, some (), [⟨(), Message.keyEvent 30 1, .ok⟩]⟩ := rfl
  have hboth := honce _ (List.mem_of_getElem? hkey) nofun
  exact absurd hboth (by decide)

end Station

end Bluecross
