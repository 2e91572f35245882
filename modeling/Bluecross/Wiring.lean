/-
# Bluecross.Wiring — which events can stand in the queue, and who is registered.

`Wired` holds in every reachable state, whatever the peers, the scheduler and the wires do. Each event
was sent by the task its source names and carries that connection's data; `NewClient` is the first
event of its connection, and there is one of it; a registered name leads to an announced connection of
that name, whose `NewClient` has been handled; until then a connection has been sent nothing; and a
writer is stopped for want of a sender only after the last sender was dropped.
-/
import Bluecross.SystemSteps

namespace Bluecross

open Lib (LTS)

/-- The connection whose task sent an event. -/
def Source.conn : Source → Option ConnId
  | .capture => none
  | .clipboard => none
  | .handler c => some c
  | .reader c => some c
  | .writer c _ => some c

/-- The event is one that its source sends, with the data of its connection. -/
inductive Event.Genuine (conns : Conns) : Event → Prop where
  | input (ev : CaptureEvent) : Genuine conns ⟨.capture, .input ev⟩
  | copied (content : String) : Genuine conns ⟨.clipboard, .clipboardChanged content⟩
  | newClient (c : ConnId) :
      Genuine conns ⟨.handler c, .newClient (conns c).name (conns c).position (conns c).screenWidth
        (conns c).screenHeight c⟩
  | message (c : ConnId) (msg : Message) :
      Genuine conns ⟨.reader c, .clientMessage (conns c).name msg⟩
  | readerGone (c : ConnId) : Genuine conns ⟨.reader c, .clientDisconnected (conns c).name⟩
  | writerGone (c : ConnId) (cause : StopCause) :
      Genuine conns ⟨.writer c cause, .clientDisconnected (conns c).name⟩

/-- Nothing has been sent to the client. -/
structure Conn.Untouched (k : Conn) : Prop where
  queue : k.queue = []
  writer : k.writer = .idle
  down : k.down = []
  inactive : k.client.state.active = false

/-- An event at the end is one of its own connection. -/
theorem filter_conn_concat (log : List Event) (e : Event) (c : ConnId) :
    ((log ++ [e]).filter fun e => e.source.conn = some c)
      = (log.filter fun e => e.source.conn = some c)
        ++ if e.source.conn = some c then [e] else [] := by
  rw [List.filter_append]
  by_cases hc : e.source.conn = some c
  · rw [if_pos hc, List.filter_cons_of_pos (by simpa using hc), List.filter_nil]
  · rw [if_neg hc, List.filter_cons_of_neg (by simpa using hc), List.filter_nil]

namespace System

/-- The events in the queue that tasks of the connection sent. -/
def eventsOf (s : System) (c : ConnId) : List Event := s.events.filter fun e => e.source.conn = some c

/-- The connection's `NewClient` has not been handled. -/
def Fresh (s : System) (c : ConnId) : Prop :=
  (s.conns c).phase ≠ .announced ∨ ∃ e ∈ s.events, e.source = .handler c

/-- The connection is the one registered under some name. -/
def Registered (s : System) (c : ConnId) : Prop :=
  ∃ name client, s.server.clients.lookup name = some client ∧ client.tx = c

theorem senderAlive_iff (s : System) (c : ConnId) :
    s.senderAlive c = true ↔ s.Fresh c ∨ s.Registered c := by
  have hentry : (s.server.clients.entries.any fun e => e.2.tx = c) = true ↔ s.Registered c := by
    rw [List.any_eq_true]
    constructor
    · rintro ⟨⟨name, client⟩, hmem, htx⟩
      exact ⟨name, client, AList.mem_lookup_iff.mpr hmem, of_decide_eq_true htx⟩
    · rintro ⟨name, client, hlookup, htx⟩
      exact ⟨⟨name, client⟩, AList.mem_lookup_iff.mp hlookup, decide_eq_true htx⟩
  unfold senderAlive Fresh
  rw [Bool.or_eq_true, Bool.or_eq_true, hentry]
  simp only [ne_eq, decide_not, Bool.not_eq_true', decide_eq_false_iff_not, List.any_eq_true,
    decide_eq_true_eq]

/-- What holds of the wiring in every reachable state. -/
structure Wired (s : System) : Prop where
  genuine : ∀ e ∈ s.events, e.Genuine s.conns
  heralded : ∀ c, ∀ e ∈ (s.eventsOf c).tail, e.source ≠ .handler c
  silent : ∀ c, (s.conns c).phase ≠ .announced → s.eventsOf c = []
  registered : ∀ name client, s.server.clients.lookup name = some client →
    ¬ s.Fresh client.tx ∧ (s.conns client.tx).name = name
  untouched : ∀ c, s.Fresh c → (s.conns c).Untouched
  held : ∀ c, s.Fresh c ∨ s.Registered c →
    (s.conns c).writer ≠ .stopping .senderDropped ∧
      ∀ e ∈ s.events, e.source ≠ .writer c .senderDropped

end System

/-! ## Steps that leave the wiring alone -/

/-- The data of the handshake and the phase, which only the handler sets. -/
structure Conn.SameIdentity (k k' : Conn) : Prop where
  phase : k'.phase = k.phase
  name : k'.name = k.name
  position : k'.position = k.position
  screenWidth : k'.screenWidth = k.screenWidth
  screenHeight : k'.screenHeight = k.screenHeight

/-- What a genuine event says is about its own connection only. -/
theorem Event.Genuine.congr {conns conns' : Conns} {e : Event} (h : e.Genuine conns)
    (hsame : ∀ c, e.source.conn = some c → (conns c).SameIdentity (conns' c)) :
    e.Genuine conns' := by
  cases h with
  | input ev => exact .input ev
  | copied content => exact .copied content
  | newClient c =>
      have hc := hsame c rfl
      rw [← hc.name, ← hc.position, ← hc.screenWidth, ← hc.screenHeight]
      exact .newClient c
  | message c msg =>
      rw [← (hsame c rfl).name]
      exact .message c msg
  | readerGone c =>
      rw [← (hsame c rfl).name]
      exact .readerGone c
  | writerGone c cause =>
      rw [← (hsame c rfl).name]
      exact .writerGone c cause

/-- What a task sends is genuine. -/
theorem Conn.Emits.genuine {c : ConnId} {k k' : Conn} {what : Emit} {e : Event} {conns : Conns}
    (h : k.Emits c what k' e) (hc : conns c = k') : e.Genuine conns := by
  cases h with
  | announce =>
      have hsent : Event.Genuine conns _ := .newClient c
      rw [hc] at hsent
      exact hsent
  | @writerReport cause =>
      have hsent : Event.Genuine conns _ := .writerGone c cause
      rw [hc] at hsent
      exact hsent
  | @readerDeliver msg =>
      have hsent : Event.Genuine conns _ := .message c msg
      rw [hc] at hsent
      exact hsent
  | readerReport =>
      have hsent : Event.Genuine conns _ := .readerGone c
      rw [hc] at hsent
      exact hsent

/-- A queued `NewClient` is its connection's own. -/
theorem Event.Genuine.of_newClient {conns : Conns} {e : Event} (h : e.Genuine conns)
    {name : String} {position : ScreenPosition} {w hgt : Int32} {tx : ConnId}
    (hevent : e.event = .newClient name position w hgt tx) :
    e.source = .handler tx ∧ name = (conns tx).name := by
  cases h with
  | newClient c =>
      obtain ⟨hname, _, _, _, htx⟩ := ServerEvent.newClient.inj hevent
      rw [← htx]
      exact ⟨rfl, hname.symm⟩
  | input => cases hevent
  | copied => cases hevent
  | message => cases hevent
  | readerGone => cases hevent
  | writerGone => cases hevent

/-- A queued `NewClient` carries the position of its connection. -/
theorem Event.Genuine.position_of_newClient {conns : Conns} {e : Event} (h : e.Genuine conns)
    {name : String} {position : ScreenPosition} {w hgt : Int32} {tx : ConnId}
    (hevent : e.event = .newClient name position w hgt tx) : position = (conns tx).position := by
  cases h with
  | newClient c =>
      obtain ⟨_, hposition, _, _, htx⟩ := ServerEvent.newClient.inj hevent
      rw [← htx]
      exact hposition.symm
  | input => cases hevent
  | copied => cases hevent
  | message => cases hevent
  | readerGone => cases hevent
  | writerGone => cases hevent

theorem Conn.takeBatch_identity (k : Conn) (b : Batch) (wire : List Message) (sendOk : Bool) :
    k.SameIdentity (k.takeBatch b wire sendOk) := by
  unfold Conn.takeBatch
  simp only
  split
  · split <;> exact ⟨rfl, rfl, rfl, rfl, rfl⟩
  · exact ⟨rfl, rfl, rfl, rfl, rfl⟩

theorem Conn.takeBatch_writer (k : Conn) (b : Batch) (wire : List Message) (sendOk : Bool) :
    (k.takeBatch b wire sendOk).writer = k.writer := by
  unfold Conn.takeBatch
  simp only
  split
  · split <;> rfl
  · rfl

theorem Conn.Step.identity {k k' : Conn} {step : ConnStep} (h : k.Step step k') :
    k.SameIdentity k' := by
  cases h with
  | batch => exact Conn.takeBatch_identity ..
  | recv => exact ⟨rfl, rfl, rfl, rfl, rfl⟩
  | written => exact ⟨rfl, rfl, rfl, rfl, rfl⟩
  | failed => exact ⟨rfl, rfl, rfl, rfl, rfl⟩
  | send => exact ⟨rfl, rfl, rfl, rfl, rfl⟩
  | stop => exact ⟨rfl, rfl, rfl, rfl, rfl⟩

/-- A connection that has been sent nothing takes no step that would change that. -/
theorem Conn.Step.untouched {k k' : Conn} {step : ConnStep} (h : k.Step step k')
    (hk : k.Untouched) : k'.Untouched := by
  cases h with
  | recv _ hqueue =>
      rw [hk.queue] at hqueue
      cases hqueue
  | written hwriter =>
      rw [hk.writer] at hwriter
      cases hwriter
  | failed hwriter =>
      rw [hk.writer] at hwriter
      cases hwriter
  | send => exact ⟨hk.queue, hk.writer, hk.down, hk.inactive⟩
  | batch _ hdown =>
      rw [hk.down] at hdown
      cases hdown
  | stop => exact ⟨hk.queue, hk.writer, hk.down, hk.inactive⟩

/-- Only `stopWriter` stops a writer for want of a sender. -/
theorem Conn.Step.not_dropped {k k' : Conn} {step : ConnStep} (h : k.Step step k')
    (hk : k.writer ≠ .stopping .senderDropped) : k'.writer ≠ .stopping .senderDropped := by
  cases h with
  | recv => nofun
  | written => nofun
  | failed => nofun
  | send => exact hk
  | batch =>
      rw [Conn.takeBatch_writer]
      exact hk
  | stop => exact hk

namespace System

variable {s : System}

theorem mem_eventsOf {c : ConnId} {e : Event} :
    e ∈ s.eventsOf c ↔ e ∈ s.events ∧ e.source.conn = some c := by
  simp only [eventsOf, List.mem_filter, decide_eq_true_eq]

theorem eventsOf_push (e : Event) (c : ConnId) :
    (s.push e).eventsOf c = s.eventsOf c ++ if e.source.conn = some c then [e] else [] :=
  filter_conn_concat s.events e c

@[simp]
theorem conns_setConn_self (c : ConnId) (k : Conn) : (s.setConn c k).conns c = k :=
  Function.update_self ..

theorem conns_setConn_of_ne {c c' : ConnId} (h : c' ≠ c) (k : Conn) :
    (s.setConn c k).conns c' = s.conns c' :=
  Function.update_of_ne h ..

/-- What relates a connection before and after its own step, and every connection to itself. -/
theorem setConn_forall {P : Conn → Conn → Prop} {c : ConnId} {k : Conn} (hrefl : ∀ k', P k' k')
    (hk : P (s.conns c) k) (c' : ConnId) : P (s.conns c') ((s.setConn c k).conns c') := by
  by_cases hc : c' = c
  · subst hc
    rw [conns_setConn_self]
    exact hk
  · rw [conns_setConn_of_ne hc]
    exact hrefl _

/-- A registered connection is not fresh. -/
theorem Wired.not_fresh (h : Wired s) {c : ConnId} (hc : s.Registered c) : ¬ s.Fresh c := by
  obtain ⟨name, client, hlookup, rfl⟩ := hc
  exact (h.registered name client hlookup).1

/-- A change of one connection that does not take its announcement back makes nothing fresh. -/
theorem fresh_of_setConn {c c' : ConnId} {k : Conn}
    (hphase : (s.conns c).phase = .announced → k.phase = .announced)
    (h : (s.setConn c k).Fresh c') : s.Fresh c' := by
  rcases h with hne | hevent
  · left
    by_cases hc : c' = c
    · subst hc
      rw [conns_setConn_self] at hne
      exact fun hannounced => hne (hphase hannounced)
    · rw [conns_setConn_of_ne hc] at hne
      exact hne
  · exact Or.inr hevent

/-- A connection may change in everything but the data others know of it, as long as nothing is sent
to it before it is registered. -/
theorem Wired.setConn (h : Wired s) {c : ConnId} {k : Conn}
    (hphase : (s.conns c).phase = .announced → k.phase = .announced)
    (hknown : (s.conns c).phase = .announced → (s.conns c).SameIdentity k)
    (huntouched : s.Fresh c → k.Untouched)
    (hheld : s.Fresh c ∨ s.Registered c → k.writer ≠ .stopping .senderDropped) :
    Wired (s.setConn c k) := by
  have halive : ∀ c', (s.setConn c k).Fresh c' ∨ (s.setConn c k).Registered c' →
      s.Fresh c' ∨ s.Registered c' :=
    fun c' => Or.imp_left (fresh_of_setConn hphase)
  refine ⟨?_, h.heralded, ?_, ?_, ?_, ?_⟩
  · intro e he
    apply (h.genuine e he).congr
    intro c' hc'
    by_cases hc : c' = c
    · subst hc
      have hannounced : (s.conns c').phase = .announced := by
        by_contra hne
        have hmem : e ∈ s.eventsOf c' := mem_eventsOf.mpr ⟨he, hc'⟩
        rw [h.silent c' hne] at hmem
        cases hmem
      rw [conns_setConn_self]
      exact hknown hannounced
    · rw [conns_setConn_of_ne hc]
      exact ⟨rfl, rfl, rfl, rfl, rfl⟩
  · intro c' hc'
    by_cases hc : c' = c
    · subst hc
      rw [conns_setConn_self] at hc'
      exact h.silent c' fun hannounced => hc' (hphase hannounced)
    · rw [conns_setConn_of_ne hc] at hc'
      exact h.silent c' hc'
  · intro name client hlookup
    obtain ⟨hfresh, hname⟩ := h.registered name client hlookup
    refine ⟨fun hf => hfresh (fresh_of_setConn hphase hf), ?_⟩
    by_cases hc : client.tx = c
    · rw [hc, conns_setConn_self]
      rw [hc] at hfresh hname
      have hannounced : (s.conns c).phase = .announced := by
        by_contra hne
        exact hfresh (Or.inl hne)
      rw [(hknown hannounced).name]
      exact hname
    · rw [conns_setConn_of_ne hc]
      exact hname
  · intro c' hfresh
    have hbefore := fresh_of_setConn hphase hfresh
    by_cases hc : c' = c
    · subst hc
      rw [conns_setConn_self]
      exact huntouched hbefore
    · rw [conns_setConn_of_ne hc]
      exact h.untouched c' hbefore
  · intro c' hc'
    have hbefore := halive c' hc'
    obtain ⟨hwriter, hevents⟩ := h.held c' hbefore
    refine ⟨?_, hevents⟩
    by_cases hc : c' = c
    · subst hc
      rw [conns_setConn_self]
      exact hheld hbefore
    · rw [conns_setConn_of_ne hc]
      exact hwriter

/-- A change that keeps what others know, and what a connection is before anything is sent to it. -/
theorem Wired.setConn_own (h : Wired s) {c : ConnId} {k : Conn} (hid : (s.conns c).SameIdentity k)
    (huntouched : (s.conns c).Untouched → k.Untouched)
    (hwriter : (s.conns c).writer ≠ .stopping .senderDropped → k.writer ≠ .stopping .senderDropped) :
    Wired (s.setConn c k) := by
  refine h.setConn ?_ (fun _ => hid) ?_ ?_
  · rw [hid.phase]
    exact id
  · intro hf
    exact huntouched (h.untouched c hf)
  · intro halive
    exact hwriter (h.held c halive).1

/-- Of the events that are queued only a `NewClient` makes a connection fresh. -/
theorem fresh_of_push {e : Event} {c : ConnId} (h : (s.push e).Fresh c) :
    s.Fresh c ∨ e.source = .handler c := by
  rcases h with hphase | ⟨e', he', hsource⟩
  · exact Or.inl (Or.inl hphase)
  · rcases List.mem_append.mp he' with hold | hlast
    · exact Or.inl (Or.inr ⟨e', hold, hsource⟩)
    · rw [List.mem_singleton.mp hlast] at hsource
      exact Or.inr hsource

/-- No event that is sent makes a connection fresh that was not. -/
theorem fresh_of_emitted {c c' : ConnId} {what : Emit} {k : Conn} {e : Event}
    (hk : (s.conns c).Emits c what k e) (h : ((s.setConn c k).push e).Fresh c') : s.Fresh c' := by
  have hphase : (s.conns c).phase = .announced → k.phase = .announced := by
    intro hannounced
    cases hk with
    | announce => rfl
    | writerReport => exact hannounced
    | readerDeliver => exact hannounced
    | readerReport => exact hannounced
  rcases fresh_of_push h with hold | hsource
  · exact fresh_of_setConn hphase hold
  · cases hk with
    | announce haccepted =>
        rw [← Source.handler.inj hsource]
        exact Or.inl (by rw [haccepted]; nofun)
    | writerReport => cases hsource
    | readerDeliver => cases hsource
    | readerReport => cases hsource

/-- A connection is fresh until it is announced and its `NewClient` is handled. -/
theorem Fresh.setConn {c o : ConnId} {k : Conn} (h : s.Fresh o)
    (hphase : k.phase = .announced → (s.conns c).phase = .announced) : (s.setConn c k).Fresh o := by
  rcases h with hne | hevent
  · left
    by_cases ho : o = c
    · subst ho
      rw [conns_setConn_self]
      exact fun hannounced => hne (hphase hannounced)
    · rw [conns_setConn_of_ne ho]
      exact hne
  · exact Or.inr hevent

theorem Fresh.push {o : ConnId} (h : s.Fresh o) (e : Event) : (s.push e).Fresh o := by
  rcases h with hne | ⟨e', he', hsource⟩
  · exact Or.inl hne
  · exact Or.inr ⟨e', List.mem_append_left [e] he', hsource⟩

/-- An announcement leaves the phase and enters the queue. -/
theorem Fresh.emitted {c o : ConnId} {what : Emit} {k : Conn} {e : Event} (h : s.Fresh o)
    (hk : (s.conns c).Emits c what k e) : ((s.setConn c k).push e).Fresh o := by
  cases hk with
  | announce =>
      by_cases ho : o = c
      · rw [ho]
        exact Or.inr ⟨_, List.mem_append_right _ (List.mem_singleton_self _), rfl⟩
      · rcases h with hne | hevent
        · refine Or.inl ?_
          show ((s.setConn c _).conns o).phase ≠ .announced
          rw [conns_setConn_of_ne ho]
          exact hne
        · obtain ⟨e', he', hsource⟩ := hevent
          exact Or.inr ⟨e', List.mem_append_left _ he', hsource⟩
  | writerReport => exact (h.setConn (by exact id)).push _
  | readerDeliver => exact (h.setConn (by exact id)).push _
  | readerReport => exact (h.setConn (by exact id)).push _

/-- A genuine event may be queued; a `NewClient` only for a connection that nobody knows. -/
theorem Wired.push (h : Wired s) {e : Event} (hgenuine : e.Genuine s.conns)
    (hannounced : ∀ c, e.source.conn = some c → (s.conns c).phase = .announced)
    (hnew : ∀ c, e.source = .handler c →
      s.eventsOf c = [] ∧ ¬ s.Registered c ∧ (s.conns c).Untouched)
    (hdropped : ∀ c, e.source = .writer c .senderDropped → ¬ (s.Fresh c ∨ s.Registered c)) :
    Wired (s.push e) := by
  have hmem : ∀ e', e' ∈ (s.push e).events → e' ∈ s.events ∨ e' = e := by
    intro e' he'
    rcases List.mem_append.mp he' with hold | hlast
    · exact Or.inl hold
    · exact Or.inr (List.mem_singleton.mp hlast)
  refine ⟨?_, ?_, ?_, ?_, ?_, ?_⟩
  · intro e' he'
    rcases hmem e' he' with hold | rfl
    · exact h.genuine e' hold
    · exact hgenuine
  · intro c e' he'
    rw [eventsOf_push] at he'
    rcases hof : s.eventsOf c with _ | ⟨e₀, rest⟩
    · rw [hof] at he'
      split at he' <;> cases he'
    -- the first event of a connection stays the first, and only it may be a `NewClient`
    · rw [hof, List.cons_append, List.tail_cons] at he'
      rcases List.mem_append.mp he' with hold | hlast
      · have htail := h.heralded c e'
        rw [hof, List.tail_cons] at htail
        exact htail hold
      · intro hsource
        split at hlast
        · rw [List.mem_singleton.mp hlast] at hsource
          have hnone := (hnew c hsource).1
          rw [hof] at hnone
          cases hnone
        · cases hlast
  -- who queues an event has been announced
  · intro c hphase
    rw [eventsOf_push, h.silent c hphase, if_neg, List.append_nil]
    intro hconn
    exact hphase (hannounced c hconn)
  · intro name client hlookup
    obtain ⟨hnot, hname⟩ := h.registered name client hlookup
    refine ⟨?_, hname⟩
    intro hf
    rcases fresh_of_push hf with hold | hsource
    · exact hnot hold
    · exact (hnew client.tx hsource).2.1 ⟨name, client, hlookup, rfl⟩
  · intro c hf
    rcases fresh_of_push hf with hold | hsource
    · exact h.untouched c hold
    · exact (hnew c hsource).2.2
  · intro c halive
    have hcases : (s.Fresh c ∨ s.Registered c) ∨ e.source = .handler c := by
      rcases halive with hf | hr
      · rcases fresh_of_push hf with hold | hsource
        · exact Or.inl (Or.inl hold)
        · exact Or.inr hsource
      · exact Or.inl (Or.inr hr)
    rcases hcases with hold | hsource
    · obtain ⟨hwriter, hevents⟩ := h.held c hold
      refine ⟨hwriter, ?_⟩
      intro e' he' hsource
      rcases hmem e' he' with hin | rfl
      · exact hevents e' hin hsource
      · exact hdropped c hsource hold
    -- a connection that its `NewClient` makes fresh has not run out of senders
    · obtain ⟨hnone, _, huntouched⟩ := hnew c hsource
      refine ⟨by rw [show (s.push e).conns c = s.conns c from rfl, huntouched.writer]; nofun, ?_⟩
      intro e' he' hsource'
      rcases hmem e' he' with hin | rfl
      · have hmem' : e' ∈ s.eventsOf c := mem_eventsOf.mpr ⟨hin, by rw [hsource']; rfl⟩
        rw [hnone] at hmem'
        cases hmem'
      · rw [hsource] at hsource'
        cases hsource'

/-- The state that the event loop leaves. -/
def served (s : System) (env : Env ConnId) (e : Event) (events : List Event) : System where
  server := (s.server.handle env s.conns e.event).1
  conns := (s.server.handle env s.conns e.event).2
  events := events

variable {env : Env ConnId} {e : Event} {events : List Event}

theorem next_serve (env : Env ConnId) (h : s.events = e :: events) :
    s.next (.serve env) = some (s.served env e events) := by
  show s.serve env = _
  unfold System.serve
  rw [h]
  rfl

theorem first_mem (h : s.events = e :: events) : e ∈ s.events := by
  rw [h]
  exact List.mem_cons_self ..

/-- The event that is handled next is genuine. -/
theorem Wired.first (h : Wired s) (hevents : s.events = e :: events) : e.Genuine s.conns :=
  h.genuine e (first_mem hevents)

/-- A connection whose `NewClient` is handled next is fresh. -/
theorem fresh_of_first {c : ConnId} (hevents : s.events = e :: events)
    (hsource : e.source = .handler c) : s.Fresh c :=
  Or.inr ⟨e, first_mem hevents, hsource⟩

theorem served_clients : (s.served env e events).server.clients
    = Server.clientsAfter s.server.clients e.event := Server.handle_clients ..

/-- An event that keeps the clients registers nobody. -/
theorem registered_of_served (h : Server.clientsAfter s.server.clients e.event = s.server.clients)
    (c : ConnId) (hc : (s.served env e events).Registered c) : s.Registered c := by
  unfold Registered at hc
  rw [served_clients, h] at hc
  exact hc

theorem eventsOf_served (env : Env ConnId) (hevents : s.events = e :: events) (c : ConnId) :
    s.eventsOf c = (if e.source.conn = some c then [e] else []) ++
      (s.served env e events).eventsOf c := by
  unfold eventsOf
  rw [hevents]
  by_cases hc : e.source.conn = some c
  · rw [if_pos hc, List.filter_cons_of_pos (by simpa using hc)]
    rfl
  · rw [if_neg hc, List.filter_cons_of_neg (by simpa using hc)]
    rfl

theorem served_queued (env : Env ConnId) (e : Event) (events : List Event) (c : ConnId) :
    ∃ more, (s.served env e events).conns c
        = { s.conns c with queue := (s.conns c).queue ++ more } ∧
      (∀ msg ∈ more, Server.MayQueue msg e.event) ∧ (more ≠ [] → s.Registered c) :=
  Server.appends_handle env s.server s.conns e.event c

theorem served_identity (c : ConnId) :
    (s.conns c).SameIdentity ((s.served env e events).conns c) := by
  obtain ⟨more, hc, _⟩ := served_queued env e events c
  rw [hc]
  exact ⟨rfl, rfl, rfl, rfl, rfl⟩

theorem served_writer (c : ConnId) :
    ((s.served env e events).conns c).writer = (s.conns c).writer := by
  obtain ⟨more, hc, _⟩ := served_queued env e events c
  rw [hc]

theorem fresh_of_served (hevents : s.events = e :: events)
    {c : ConnId} (h : (s.served env e events).Fresh c) : s.Fresh c := by
  rcases h with hphase | ⟨e', he', hsource⟩
  · rw [(served_identity c).phase] at hphase
    exact Or.inl hphase
  · refine Or.inr ⟨e', ?_, hsource⟩
    rw [hevents]
    exact List.mem_cons_of_mem e he'

theorem served_reader (c : ConnId) :
    ((s.served env e events).conns c).reader = (s.conns c).reader := by
  obtain ⟨more, hc, _⟩ := served_queued env e events c
  rw [hc]

theorem Fresh.served {o : ConnId} (h : s.Fresh o)
    (hevents : s.events = e :: events) (he : e.source ≠ .handler o) :
    (s.served env e events).Fresh o := by
  rcases h with hne | ⟨e', he', hsource⟩
  · left
    rw [(served_identity o).phase]
    exact hne
  · rw [hevents] at he'
    rcases List.mem_cons.mp he' with rfl | hlater
    · exact absurd hsource he
    · exact Or.inr ⟨e', hlater, hsource⟩

/-- The first event of a connection that is yet to be registered is its `NewClient`. -/
theorem Wired.first_of_fresh {o : ConnId} (h : Wired s) (hevents : s.events = e :: events)
    (hfresh : s.Fresh o) (hconn : e.source.conn = some o) : e.source = .handler o := by
  have hof := eventsOf_served ⟨0, HashOrder.entries ConnId⟩ hevents o
  rw [if_pos hconn] at hof
  rcases hfresh with hphase | ⟨e', he', hsource⟩
  · rw [h.silent o hphase] at hof
    cases hof
  · rw [hevents] at he'
    rcases List.mem_cons.mp he' with rfl | hlater
    · exact hsource
    · have htail := h.heralded o e'
      rw [hof, List.singleton_append, List.tail_cons] at htail
      exact absurd hsource (htail (mem_eventsOf.mpr ⟨hlater, by rw [hsource]; rfl⟩))

/-- Nothing is sent to a connection before it is registered. -/
theorem served_fresh (hwired : Wired s) {c : ConnId} (h : s.Fresh c) :
    (s.served env e events).conns c = s.conns c := by
  obtain ⟨more, hc, _, hto⟩ := served_queued env e events c
  have hmore : more = [] := by
    by_contra hne
    exact hwired.not_fresh (hto hne) h
  rw [hc, hmore, List.append_nil]

/-- A client found after an event was there before, or the event is its own `NewClient`. -/
theorem lookup_of_served (hwired : Wired s) (hevents : s.events = e :: events) {name : String}
    {client : ClientInfo ConnId}
    (h : (s.served env e events).server.clients.lookup name = some client) :
    s.server.clients.lookup name = some client ∨
      e.source = .handler client.tx ∧ name = (s.conns client.tx).name := by
  rw [served_clients] at h
  rcases Server.lookup_clientsAfter h with hbefore | hnew
  · exact Or.inl hbefore
  · exact Or.inr ((hwired.first hevents).of_newClient hnew)

theorem Wired.served (h : Wired s)
    (hevents : s.events = e :: events) : Wired (s.served env e events) := by
  have hsub : ∀ e' ∈ events, e' ∈ s.events := by
    intro e' he'
    rw [hevents]
    exact List.mem_cons_of_mem e he'
  have hidentity : ∀ c, (s.conns c).SameIdentity ((s.served env e events).conns c) :=
    fun c => served_identity c
  refine ⟨?_, ?_, ?_, ?_, ?_, ?_⟩
  · intro e' he'
    exact (h.genuine e' (hsub e' he')).congr fun c _ => hidentity c
  · intro c e' he'
    apply h.heralded c e'
    rw [eventsOf_served env hevents]
    split
    · exact List.mem_of_mem_tail he'
    · exact he'
  · intro c hphase
    rw [(hidentity c).phase] at hphase
    have hnone := h.silent c hphase
    rw [eventsOf_served env hevents] at hnone
    exact (List.append_eq_nil_iff.mp hnone).2
  · intro name client hclient
    rcases lookup_of_served h hevents hclient with hbefore | ⟨hsource, hname⟩
    · obtain ⟨hnot, hname⟩ := h.registered name client hbefore
      refine ⟨fun hf => hnot (fresh_of_served hevents hf), ?_⟩
      rw [(hidentity client.tx).name]
      exact hname
    -- registered just now: its `NewClient` was the first of its events, so none is left
    · have hconn : e.source.conn = some client.tx := by rw [hsource]; rfl
      have hof := eventsOf_served env hevents client.tx
      rw [if_pos hconn] at hof
      refine ⟨?_, by rw [(hidentity client.tx).name]; exact hname.symm⟩
      rintro (hphase | ⟨e', he', hsource'⟩)
      · rw [(hidentity client.tx).phase] at hphase
        rw [h.silent _ hphase] at hof
        cases hof
      · have htail := h.heralded client.tx e'
        rw [hof, List.singleton_append, List.tail_cons] at htail
        exact htail (mem_eventsOf.mpr ⟨he', by rw [hsource']; rfl⟩) hsource'
  · intro c hf
    have hbefore := fresh_of_served hevents hf
    rw [served_fresh h hbefore]
    exact h.untouched c hbefore
  · intro c halive
    have hbefore : s.Fresh c ∨ s.Registered c := by
      rcases halive with hf | ⟨name, client, hclient, htx⟩
      · exact Or.inl (fresh_of_served hevents hf)
      · rcases lookup_of_served h hevents hclient with hold | ⟨hsource, _⟩
        · exact Or.inr ⟨name, client, hold, htx⟩
        · rw [htx] at hsource
          exact Or.inl (fresh_of_first hevents hsource)
    obtain ⟨hnot, hnone⟩ := h.held c hbefore
    rw [served_writer]
    exact ⟨hnot, fun e' he' => hnone e' (hsub e' he')⟩

/-! ## Every step -/

/-- What the reader of an announced connection queues. -/
theorem Wired.push_reader (h : Wired s) {c : ConnId} {k : Conn} {ev : ServerEvent ConnId}
    (hphase : (s.conns c).phase = .announced) (hid : (s.conns c).SameIdentity k)
    (huntouched : (s.conns c).Untouched → k.Untouched)
    (hwriter : (s.conns c).writer ≠ .stopping .senderDropped → k.writer ≠ .stopping .senderDropped)
    (hgenuine : Event.Genuine (s.setConn c k).conns ⟨.reader c, ev⟩) :
    Wired ((s.setConn c k).push ⟨.reader c, ev⟩) := by
  have hset : Wired (s.setConn c k) := h.setConn_own hid huntouched hwriter
  refine hset.push hgenuine ?_ nofun nofun
  intro c' hc'
  rw [← Option.some.inj hc', conns_setConn_self, hid.phase]
  exact hphase

theorem Wired.emitted (h : Wired s) {c : ConnId} {what : Emit} {k : Conn} {e : Event}
    (hk : (s.conns c).Emits c what k e) : Wired ((s.setConn c k).push e) := by
  have hgenuine : e.Genuine (s.setConn c k).conns := hk.genuine (conns_setConn_self c k)
  cases hk with
  | announce hphase =>
      have hfresh : s.Fresh c := Or.inl (by rw [hphase]; nofun)
      have hset : Wired (s.setConn c { s.conns c with phase := .announced }) := by
        refine h.setConn (fun _ => rfl) ?_ ?_ ?_
        · rw [hphase]
          nofun
        · intro hf
          have hu := h.untouched c hf
          exact ⟨hu.queue, hu.writer, hu.down, hu.inactive⟩
        · intro halive
          exact (h.held c halive).1
      refine hset.push hgenuine ?_ ?_ nofun
      · intro c' hc'
        rw [← Option.some.inj hc', conns_setConn_self]
      · intro c' hc'
        have hc : c' = c := (Source.handler.inj hc').symm
        subst hc
        have hu := h.untouched c' hfresh
        refine ⟨h.silent c' (by rw [hphase]; nofun), fun hr => h.not_fresh hr hfresh, ?_⟩
        rw [conns_setConn_self]
        exact ⟨hu.queue, hu.writer, hu.down, hu.inactive⟩
  | @writerReport cause hwriter =>
      have hnot : ¬ s.Fresh c := by
        intro hf
        rw [(h.untouched c hf).writer] at hwriter
        cases hwriter
      have hset : Wired (s.setConn c { s.conns c with writer := .ended }) := by
        refine h.setConn id (fun _ => ⟨rfl, rfl, rfl, rfl, rfl⟩) ?_ ?_
        · intro hf
          exact absurd hf hnot
        · intro _
          nofun
      refine hset.push hgenuine ?_ nofun ?_
      · intro c' hc'
        rw [← Option.some.inj hc', conns_setConn_self]
        by_contra hne
        exact hnot (Or.inl hne)
      · intro c' hc' halive
        obtain ⟨rfl, rfl⟩ := Source.writer.inj hc'
        have hbefore : s.Fresh c ∨ s.Registered c := by
          rcases halive with hf | hr
          · exact Or.inl (fresh_of_setConn (s := s) (by exact id) hf)
          · exact Or.inr hr
        exact (h.held c hbefore).1 hwriter
  | readerDeliver hphase hreader hup =>
      exact h.push_reader hphase ⟨rfl, rfl, rfl, rfl, rfl⟩
        (fun hu => ⟨hu.queue, hu.writer, hu.down, hu.inactive⟩) id hgenuine
  | readerReport hphase hreader =>
      exact h.push_reader hphase ⟨rfl, rfl, rfl, rfl, rfl⟩
        (fun hu => ⟨hu.queue, hu.writer, hu.down, hu.inactive⟩) id hgenuine

theorem Wired.step {s' : System} {l : Label} (h : Wired s) (hstep : s.Step l s') : Wired s' := by
  cases hstep with
  | capture => exact h.push (.input _) nofun nofun nofun
  | copied => exact h.push (.copied _) nofun nofun nofun
  | serve hevents => exact h.served hevents
  | emit hk => exact h.emitted hk
  | @accept c config clipboard now₁ now₂ position hphase _ =>
      refine h.setConn ?_ ?_ ?_ ?_
      · rw [hphase]
        nofun
      · rw [hphase]
        nofun
      · intro _
        exact ⟨rfl, rfl, rfl, rfl⟩
      · intro _
        nofun
  | conn hk => exact h.setConn_own hk.identity hk.untouched hk.not_dropped
  | @stopWriter c _ _ hdead =>
      -- nobody holds the sender, so neither the handler nor the map of clients has it
      have hgone : ¬ (s.Fresh c ∨ s.Registered c) := by
        rw [← senderAlive_iff, hdead]
        nofun
      refine h.setConn id ?_ ?_ ?_
      · intro _
        exact ⟨rfl, rfl, rfl, rfl, rfl⟩
      · intro hf
        exact absurd (Or.inl hf) hgone
      · intro halive
        exact absurd halive hgone

/-! ## Every run -/

/-- What every reachable state satisfies: the control state of the server and the wiring. -/
structure Sound (config : ServerConfig) (s : System) : Prop where
  coherent : Coherent s.server
  config_eq : s.server.config = config
  wired : Wired s

variable {config : ServerConfig}

theorem wired_new (config : ServerConfig) (clipboard : ClipboardManager) (now : Instant) :
    Wired (System.new config clipboard now) := by
  refine ⟨nofun, nofun, fun _ _ => rfl, ?_, ?_, ?_⟩
  · intro name client hlookup
    cases hlookup
  · intro c _
    exact ⟨rfl, rfl, rfl, rfl⟩
  · intro c _
    exact ⟨nofun, nofun⟩

theorem sound_new (hsized : config.Sized) (clipboard : ClipboardManager) (now : Instant) :
    Sound config (System.new config clipboard now) :=
  ⟨Server.coherent_new hsized clipboard now, rfl, wired_new config clipboard now⟩

theorem Sound.step {s' : System} {l : Label} (h : Sound config s) (hsized : config.Sized)
    (hstep : s.Step l s') : Sound config s' := by
  have hwired := h.wired.step hstep
  have hsized' : s.server.config.Sized := by
    rw [h.config_eq]
    exact hsized
  cases hstep with
  | serve =>
      exact ⟨Server.coherent_handle hsized' h.coherent,
        (Server.handle_config ..).trans h.config_eq, hwired⟩
  | accept => exact ⟨h.coherent, h.config_eq, hwired⟩
  | conn => exact ⟨h.coherent, h.config_eq, hwired⟩
  | stopWriter => exact ⟨h.coherent, h.config_eq, hwired⟩
  | emit => exact ⟨h.coherent, h.config_eq, hwired⟩
  | capture => exact ⟨h.coherent, h.config_eq, hwired⟩
  | copied => exact ⟨h.coherent, h.config_eq, hwired⟩

theorem sound_reach (hsized : config.Sized) {G : System → Label → Prop} {s : System}
    (h : (System.lts config).Reach G s) : Sound config s := by
  refine h.invariant ?_ ?_
  · rintro _ ⟨clipboard, now, rfl⟩
    exact sound_new hsized clipboard now
  · intro s l s' hs _ hnext
    exact hs.step hsized (step_of_next hnext)

end System

end Bluecross
