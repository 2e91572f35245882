/-
# Bluecross.ClipboardNet — the clipboards of the server and its clients as one system.

A value copied on one machine is reported by its watcher, goes to the server as a `ClipboardChanged`
or a `ClipboardData`, and the server passes it on in the order of its event queue: what it handles it
applies, if it came from a client, and sends to everybody else. Each of these is one step. The
channels are FIFO and never full, a value is applied in one step, the watchers report every copy, and
nobody has control, so the pause never holds anything back.

A batch of a client's loop is its messages delivered one behind the other: a `ClipboardData` carries
no motion, so nothing is left to do at the end of the batch.
-/
import Bluecross.ClipboardRelay
import Bluecross.ClientControl

namespace Bluecross

open Lib (LTS)

/-- FIFO queues without a bound. -/
instance (ι : Type) [DecidableEq ι] : Mailbox (ι → List Message) ι where
  trySend down i msg := (.ok, Function.update down i (down i ++ [msg]))

/-- The machines: the server (`none`) and the clients. -/
structure ClipboardNet (ι : Type) where
  server : Server ι
  clients : ι → Client
  /-- Values copied on a machine that its watcher has not looked at. -/
  copies : Option ι → List String
  /-- Values that the watcher of a machine has found to be new and that are not sent yet. -/
  reported : Option ι → List String
  /-- From a client to its reader task. -/
  up : ι → List Message
  /-- From the server to a client. -/
  down : ι → List Message
  events : List (ServerEvent ι)

namespace ClipboardNet

variable {ι : Type}

/-- A step of the network: of an application, of a watcher, or of a task that hands a value on. -/
inductive Label (ι : Type) where
  /-- An application copies a value. -/
  | copy (n : Option ι) (value : String)
  /-- The watcher of a machine looks at the next copy. -/
  | report (n : Option ι)
  /-- A reported value is sent, by the server's forwarder or a client's loop. -/
  | send (n : Option ι)
  /-- The reader task of a client takes a message. -/
  | read (i : ι)
  | serve (env : Env ι)
  /-- The loop of a client takes a message. -/
  | deliver (i : ι) (now : Instant)

/-- The clipboard of a machine; `none` is the server's. -/
def clipboard (s : ClipboardNet ι) : Option ι → ClipboardManager
  | none => s.server.clipboard
  | some i => (s.clients i).clipboard

/-- No `ClipboardData` is in flight and no copy is unreported. -/
structure Quiet (s : ClipboardNet ι) : Prop where
  copies : ∀ n, s.copies n = []
  reported : ∀ n, s.reported n = []
  up : ∀ i, s.up i = []
  down : ∀ i, s.down i = []
  events : s.events = []

/-- The clients under their names are connected, everybody shares, and nobody has control. -/
structure Connected (name : ι → String) (s : ClipboardNet ι) : Prop where
  sharing : s.server.config.clipboardSharing = true
  clientSharing : ∀ i, (s.clients i).state.config.clipboardSharing = true
  inactive : s.server.activeClient = none
  unpaused : s.server.clipboardPaused = false
  registered : ∀ i, ∃ client, s.server.clients.lookup (name i) = some client ∧ client.tx = i
  known : ∀ m client, s.server.clients.lookup m = some client → m = name client.tx

variable {name : ι → String} {s s' : ClipboardNet ι}

/-- Who is connected is a matter of the server and the clients. -/
theorem Connected.congr (h : s.Connected name) (hserver : s'.server = s.server)
    (hclients : s'.clients = s.clients) : s'.Connected name := by
  refine ⟨?_, ?_, ?_, ?_, ?_, ?_⟩
  · rw [hserver]
    exact h.sharing
  · rw [hclients]
    exact h.clientSharing
  · rw [hserver]
    exact h.inactive
  · rw [hserver]
    exact h.unpaused
  · rw [hserver]
    exact h.registered
  · rw [hserver]
    exact h.known

theorem Connected.injective (h : s.Connected name) : Function.Injective name := by
  intro i j heq
  obtain ⟨client, hclient, htx⟩ := h.registered i
  obtain ⟨client', hclient', htx'⟩ := h.registered j
  rw [heq, hclient'] at hclient
  cases hclient
  exact htx.symm.trans htx'

theorem Connected.mem_names (h : s.Connected name) (env : Env ι) (i : ι) :
    name i ∈ s.server.names env := by
  obtain ⟨client, hclient, _⟩ := h.registered i
  exact Server.mem_names hclient env

variable [DecidableEq ι]

/-- Another clipboard for one machine. -/
def setClipboard (s : ClipboardNet ι) (n : Option ι) (clip : ClipboardManager) : ClipboardNet ι :=
  match n with
  | none => { s with server := { s.server with clipboard := clip } }
  | some i =>
      { s with clients := Function.update s.clients i { s.clients i with clipboard := clip } }

/-- A report: the value of the copy is compared with the one seen last. -/
def report (s : ClipboardNet ι) (n : Option ι) (value : String) (rest : List String) :
    ClipboardNet ι :=
  let (changed, clip) := (s.clipboard n).takeIfChanged value
  let s := { s.setClipboard n clip with copies := Function.update s.copies n rest }
  if changed then
    { s with reported := Function.update s.reported n (s.reported n ++ [value]) }
  else s

/-- Every value takes one step at a time: it is reported, sent, queued, handled and delivered. -/
def next (name : ι → String) (s : ClipboardNet ι) : Label ι → Option (ClipboardNet ι)
  | .copy n value =>
      some { s.setClipboard n ((s.clipboard n).wlCopy value) with
        copies := Function.update s.copies n (s.copies n ++ [value]) }
  | .report n =>
      match s.copies n with
      | [] => none
      | value :: rest => some (s.report n value rest)
  | .send n =>
      match s.reported n with
      | [] => none
      | value :: rest =>
          let s := { s with reported := Function.update s.reported n rest }
          match n with
          | none => some { s with events := s.events ++ [.clipboardChanged value] }
          | some i =>
              some { s with
                up := Function.update s.up i (s.up i ++ [Message.clipboardData value]) }
  | .read i =>
      match s.up i with
      | [] => none
      | msg :: rest =>
          some { s with
            up := Function.update s.up i rest
            events := s.events ++ [.clientMessage (name i) msg] }
  | .serve env =>
      match s.events with
      | [] => none
      | event :: events =>
          let handled := s.server.handle env s.down event
          some { s with server := handled.1, down := handled.2, events := events }
  | .deliver i now =>
      match s.down i with
      | [] => none
      | msg :: rest =>
          some { s with
            clients := Function.update s.clients i ((s.clients i).applyMessage msg now).1
            down := Function.update s.down i rest }

/-- The network of connected clients, with nothing under way. -/
def lts (name : ι → String) : LTS (ClipboardNet ι) (Label ι) where
  init s := s.Connected name ∧ s.Quiet
  next := next name

/-- What is copied is not empty: the watcher reports no empty value. -/
def NotEmpty (_ : ClipboardNet ι) : Label ι → Prop
  | .copy _ value => value ≠ ""
  | _ => True

/-! ## One event of the server -/

/-- The event that a value copied on a machine becomes. -/
def event (name : ι → String) : Option ι → String → ServerEvent ι
  | none, value => .clipboardChanged value
  | some i, value => .clientMessage (name i) (Message.clipboardData value)

/-- The queues to the clients after the server has passed a value on. -/
def passedOn (s : ClipboardNet ι) (n : Option ι) (value : String) (i : ι) : List Message :=
  if n = some i then s.down i else s.down i ++ [Message.clipboardData value]

theorem passedOn_self (s : ClipboardNet ι) (i : ι) (value : String) :
    s.passedOn (some i) value i = s.down i := if_pos rfl

theorem passedOn_of_ne (s : ClipboardNet ι) {n : Option ι} {i : ι} (h : n ≠ some i)
    (value : String) : s.passedOn n value i = s.down i ++ [Message.clipboardData value] := if_neg h

/-- What is sent to some of the clients is queued once for each of them. -/
theorem Connected.sendEach_down (h : s.Connected name) (msg : Message) (down : ι → List Message)
    {server : Server ι} (hclients : server.clients = s.server.clients) {env : Env ι}
    {names : List String} (hnodup : names.Nodup) (hnames : ∀ m ∈ names, m ∈ s.server.names env)
    (i : ι) :
    server.sendEach msg down names i = if name i ∈ names then down i ++ [msg] else down i := by
  induction names generalizing down with
  | nil => rfl
  | cons m names ih =>
      obtain ⟨client, hclient⟩ := Server.lookup_of_mem_names (hnames m (List.mem_cons_self ..))
      obtain rfl := h.known m client hclient
      obtain ⟨hfresh, hnodup⟩ := List.nodup_cons.mp hnodup
      have hfirst : (server.sendTo down (name client.tx) msg).2
          = Function.update down client.tx (down client.tx ++ [msg]) := by
        rw [← hclients] at hclient
        rw [Server.sendTo_registered hclient]
        rfl
      show server.sendEach msg (server.sendTo down (name client.tx) msg).2 names i = _
      rw [hfirst, ih _ hnodup fun m hm => hnames m (List.mem_cons_of_mem _ hm)]
      by_cases hi : i = client.tx
      · subst hi
        rw [if_neg hfresh, if_pos (List.mem_cons_self ..), Function.update_self]
      · have hne : name i ≠ name client.tx := fun heq => hi (h.injective heq)
        rw [Function.update_of_ne hi]
        simp only [List.mem_cons, hne, false_or]

/-- The server applies a value that comes from a client and sends every value to everybody else. -/
theorem Connected.handle_event (h : s.Connected name) (env : Env ι) (n : Option ι) {value : String}
    (hvalue : value ≠ "") :
    s.server.handle env s.down (event name n value) =
      ((if n = none then s else s.setClipboard none ⟨value, value⟩).server, s.passedOn n value) := by
  cases n with
  | none =>
      refine Prod.ext rfl (funext fun i => ?_)
      show s.server.broadcastClipboard env s.down value i = _
      have hopen : ¬ (s.server.clients.entries.isEmpty ∨ s.server.clipboardPaused = true) := by
        rw [h.unpaused]
        obtain ⟨client, hclient, _⟩ := h.registered i
        have hmem := AList.mem_lookup_iff.mp hclient
        rintro (hempty | hpaused)
        · rw [List.isEmpty_iff.mp hempty] at hmem
          cases hmem
        · cases hpaused
      rw [Server.broadcastClipboard, if_neg hopen,
        h.sendEach_down _ _ rfl (s.server.names_nodup env) (fun _ hm => hm),
        if_pos (h.mem_names env i)]
      exact (s.passedOn_of_ne (Option.some_ne_none i).symm value).symm
  | some j =>
      show s.server.handleClientMessage env s.down (name j) (Message.clipboardData value) = _
      have hcontent : s.server.config.contentOf (Message.clipboardData value) = some value := by
        show (some value).filter (fun _ => s.server.config.clipboardSharing) = some value
        rw [h.sharing]
        rfl
      rcases Server.handleClientMessage_cases env s.server s.down (name j)
        (Message.clipboardData value) with ⟨hback, _⟩ | ⟨content, hsame, hdone⟩ | ⟨_, hnone, _⟩
      · cases hback
      · rw [hcontent] at hsame
        cases hsame
        rw [hdone, s.server.clipboard.set_of_ne_empty hvalue]
        refine Prod.ext rfl (funext fun i => ?_)
        show Server.sendEach _ _ s.down _ i = _
        rw [h.sendEach_down _ _ rfl ((s.server.names_nodup env).filter _)
          fun _ hm => List.mem_of_mem_filter hm]
        by_cases hij : j = i
        · subst hij
          have hself : name j ∉ (s.server.names env).filter fun m => m ≠ name j := by
            intro hmem
            exact absurd rfl (of_decide_eq_true (List.mem_filter.mp hmem).2)
          rw [if_neg hself]
          exact (s.passedOn_self j value).symm
        · have hne : name i ≠ name j := fun heq => hij (h.injective heq).symm
          rw [if_pos (List.mem_filter.mpr ⟨h.mem_names env i, decide_eq_true hne⟩)]
          exact (s.passedOn_of_ne (fun heq => hij (Option.some.inj heq)) value).symm
      · rw [hcontent] at hnone
        cases hnone

/-! ## A report and a delivery -/

/-- A report, by whether the value was seen last. -/
theorem report_eq (s : ClipboardNet ι) (n : Option ι) {value : String} (hvalue : value ≠ "")
    (rest : List String) :
    s.report n value rest =
      if (s.clipboard n).lastContent = value then
        { s.setClipboard n (s.clipboard n) with copies := Function.update s.copies n rest }
      else
        { s.setClipboard n ((s.clipboard n).record value) with
          copies := Function.update s.copies n rest
          reported := Function.update s.reported n (s.reported n ++ [value]) } := by
  have hempty : ¬ value.isEmpty = true := fun hempty => hvalue (String.isEmpty_iff.mp hempty)
  by_cases hseen : (s.clipboard n).lastContent = value
  · have htake : (s.clipboard n).takeIfChanged value = (false, s.clipboard n) := by
      rw [ClipboardManager.takeIfChanged, if_neg hempty, if_pos hseen]
    rw [if_pos hseen, report, htake]
    rfl
  · have htake : (s.clipboard n).takeIfChanged value = (true, (s.clipboard n).record value) := by
      rw [ClipboardManager.takeIfChanged, if_neg hempty, if_neg hseen]
    rw [if_neg hseen, report, htake]
    cases n <;> rfl

end ClipboardNet

end Bluecross
