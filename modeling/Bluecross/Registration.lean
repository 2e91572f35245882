/-
# Bluecross.Registration — how long a connection stays registered under its name.

Registrations are keyed by name, and so are disconnect events. A connection that was replaced still
has reports to send: its reader notices that its socket is closed, and its writer, whose sender was
dropped by the replacement, ends and reports too. Either report removes whatever is registered under
the name at that time.

A registration is safe when every earlier connection of the name is `Retired`: both of its tasks are
over and their reports have been handled. `registration_kept` is about every run that registers names
only then, and `registration_lost` is a run that does not.
-/
import Bluecross.Holder

namespace Bluecross

open Lib (LTS)

/-- The event ends the registration of a connection: a `NewClient` for the name, or a report by the
connection's own reader or by its own writer after a failed write. -/
def Event.EndsRegistration (c : ConnId) (n : String) (e : Event) : Prop :=
  (∃ position w h tx, e.event = .newClient n position w h tx) ∨
    e.event = .clientDisconnected n ∧ (e.source = .reader c ∨ e.source = .writer c .writeFailed)

/-- Only its own report ends a reader. -/
theorem Conn.Step.reader {k k' : Conn} {step : ConnStep} (h : k.Step step k') :
    k'.reader = k.reader := by
  cases h with
  | batch =>
      unfold Conn.takeBatch
      simp only
      split
      · split <;> rfl
      · rfl
  | recv => rfl
  | written => rfl
  | failed => rfl
  | send => rfl
  | stop => rfl

namespace System

variable {s s' : System} {c o : ConnId} {n : String}

/-! ## The condition, and the law -/

/-- Both tasks of the connection are over, and no report of theirs waits for the event loop. -/
structure Retired (s : System) (o : ConnId) : Prop where
  writer : (s.conns o).writer = .ended
  reader : (s.conns o).reader = .ended
  silent : ∀ e ∈ s.eventsOf o, ∀ m, e.event ≠ .clientDisconnected m

/-- Of the other connections under the name each is yet to be registered, or retired. -/
def Alone (s : System) (c : ConnId) (n : String) : Prop :=
  ∀ o, o ≠ c → (s.conns o).name = n → s.Fresh o ∨ s.Retired o

/-- A name is registered only when its earlier connections have retired. -/
def RivalsRetired (s : System) : Label → Prop
  | .serve _ => ∀ c n position w h events,
      s.events = ⟨.handler c, .newClient n position w h c⟩ :: events → s.Alone c n
  | _ => True

/-- The step handles an event that ends the registration. -/
def Releases (c : ConnId) (n : String) (s : System) : Label → Prop
  | .serve _ => ∃ e events, s.events = e :: events ∧ e.EndsRegistration c n
  | _ => False

/-- The connection's queue is the one registered under the name. -/
def Holds (s : System) (c : ConnId) (n : String) : Prop :=
  ∃ client, s.server.clients.lookup n = some client ∧ client.tx = c

/-! ## Connections that are over -/

theorem Retired.setConn {k : Conn} (h : s.Retired o)
    (hwriter : (s.conns c).writer = .ended → k.writer = .ended)
    (hreader : (s.conns c).reader = .ended → k.reader = .ended) : (s.setConn c k).Retired o := by
  by_cases ho : o = c
  · subst ho
    refine ⟨?_, ?_, h.silent⟩
    · rw [conns_setConn_self]
      exact hwriter h.writer
    · rw [conns_setConn_self]
      exact hreader h.reader
  · refine ⟨?_, ?_, h.silent⟩
    · rw [conns_setConn_of_ne ho]
      exact h.writer
    · rw [conns_setConn_of_ne ho]
      exact h.reader

theorem Retired.push (h : s.Retired o) {e : Event}
    (he : e.source.conn = some o → ∀ m, e.event ≠ .clientDisconnected m) :
    (s.push e).Retired o := by
  refine ⟨h.writer, h.reader, ?_⟩
  intro e' he'
  rw [eventsOf_push] at he'
  rcases List.mem_append.mp he' with hold | hlast
  · exact h.silent e' hold
  · split at hlast
    · rename_i hconn
      rw [List.mem_singleton.mp hlast]
      exact he hconn
    · cases hlast

/-- A connection whose tasks are over sends no more reports. -/
theorem Retired.emitted {what : Emit} {k : Conn} {e : Event} (h : s.Retired o)
    (hk : (s.conns c).Emits c what k e) : ((s.setConn c k).push e).Retired o := by
  have hconn : e.source.conn = some c := by cases hk <;> rfl
  refine Retired.push (h.setConn ?_ ?_) ?_
  · cases hk <;> first | exact fun _ => rfl | exact id
  · cases hk <;> first | exact fun _ => rfl | exact id
  · intro ho
    rw [hconn] at ho
    have hco : c = o := Option.some.inj ho
    subst hco
    cases hk with
    | announce => nofun
    | readerDeliver => nofun
    | writerReport hwriter =>
        rw [h.writer] at hwriter
        cases hwriter
    | readerReport _ hreader =>
        rw [h.reader] at hreader
        cases hreader


/-! ## Steps -/

/-- The connection is registered, and no other connection of its name can be in its way. -/
structure Secure (s : System) (c : ConnId) (n : String) : Prop where
  holds : s.Holds c n
  alone : s.Alone c n

theorem Secure.registered (h : s.Secure c n) : s.Registered c := by
  obtain ⟨client, hclient, htx⟩ := h.holds
  exact ⟨n, client, hclient, htx⟩

/-- A step of one connection. -/
theorem Secure.setConn (h : s.Secure c n) {a : ConnId} {k : Conn}
    (hid : (s.conns a).SameIdentity k)
    (hwriter : (s.conns a).writer = .ended → k.writer = .ended)
    (hreader : (s.conns a).reader = .ended → k.reader = .ended) : (s.setConn a k).Secure c n := by
  refine ⟨h.holds, ?_⟩
  intro o ho hname
  have hbefore : (s.conns o).name = n := by
    rw [← hname]
    exact setConn_forall (P := fun k₁ k₂ => k₁.name = k₂.name) (fun _ => rfl) hid.name.symm o
  rcases h.alone o ho hbefore with hfresh | hretired
  · refine Or.inl (hfresh.setConn ?_)
    rw [hid.phase]
    exact id
  · exact Or.inr (hretired.setConn hwriter hreader)

/-- A connection that enters is yet to be registered. -/
theorem Secure.accept (h : s.Secure c n) {a : ConnId} {k : Conn} (hk : k.phase ≠ .announced) :
    (s.setConn a k).Secure c n := by
  refine ⟨h.holds, ?_⟩
  intro o ho hname
  by_cases hoa : o = a
  · left
    left
    rw [hoa, conns_setConn_self]
    exact hk
  · rw [conns_setConn_of_ne hoa] at hname
    rcases h.alone o ho hname with hfresh | hretired
    · rcases hfresh with hne | hevent
      · refine Or.inl (Or.inl ?_)
        rw [conns_setConn_of_ne hoa]
        exact hne
      · exact Or.inl (Or.inr hevent)
    · refine Or.inr ⟨?_, ?_, hretired.silent⟩
      · rw [conns_setConn_of_ne hoa]
        exact hretired.writer
      · rw [conns_setConn_of_ne hoa]
        exact hretired.reader

theorem Secure.push (h : s.Secure c n) {e : Event} (he : e.source.conn = none) :
    (s.push e).Secure c n := by
  refine ⟨h.holds, ?_⟩
  intro o ho hname
  rcases h.alone o ho hname with hfresh | hretired
  · exact Or.inl (hfresh.push e)
  · refine Or.inr (hretired.push ?_)
    rw [he]
    nofun

theorem Secure.emitted (h : s.Secure c n) {a : ConnId} {what : Emit} {k : Conn} {e : Event}
    (hk : (s.conns a).Emits a what k e) : ((s.setConn a k).push e).Secure c n := by
  refine ⟨h.holds, ?_⟩
  intro o ho hname
  have hbefore : (s.conns o).name = n := by
    rw [← hname]
    refine setConn_forall (P := fun k₁ k₂ => k₁.name = k₂.name) (fun _ => rfl) ?_ o
    cases hk <;> rfl
  rcases h.alone o ho hbefore with hfresh | hretired
  · exact Or.inl (hfresh.emitted hk)
  · exact Or.inr (hretired.emitted hk)

variable {env : Env ConnId} {e : Event} {events : List Event}

theorem Retired.served (h : s.Retired o)
    (hevents : s.events = e :: events) : (s.served env e events).Retired o := by
  refine ⟨?_, ?_, ?_⟩
  · rw [served_writer]
    exact h.writer
  · rw [served_reader]
    exact h.reader
  · intro e' he'
    apply h.silent
    rw [eventsOf_served env hevents]
    exact List.mem_append_right _ he'

/-- A report about the name that does not end the registration: nobody is left who sends it. -/
theorem Secure.no_report (h : s.Secure c n) (hwired : Wired s) (hevents : s.events = e :: events)
    (hends : ¬ e.EndsRegistration c n) : e.event ≠ .clientDisconnected n := by
  intro hevent
  have hmem := first_mem hevents
  have hgenuine := hwired.genuine e hmem
  -- whoever sends it is `c` itself or another connection of the name
  have hother : ∀ o, e.source.conn = some o → e.source ≠ .handler o → (s.conns o).name = n →
      o = c := by
    intro o hconn hsource hname
    by_contra hne
    rcases h.alone o hne hname with hfresh | hretired
    · exact hsource (hwired.first_of_fresh hevents hfresh hconn)
    · exact hretired.silent e (mem_eventsOf.mpr ⟨hmem, hconn⟩) n hevent
  cases hgenuine with
  | input => cases hevent
  | copied => cases hevent
  | newClient => cases hevent
  | message => cases hevent
  | readerGone o =>
      have hname : (s.conns o).name = n := ServerEvent.clientDisconnected.inj hevent
      have ho := hother o rfl nofun hname
      rw [ho] at hends hevent
      exact hends (Or.inr ⟨hevent, Or.inl rfl⟩)
  | writerGone o cause =>
      have hname : (s.conns o).name = n := ServerEvent.clientDisconnected.inj hevent
      have ho := hother o rfl nofun hname
      subst ho
      cases cause with
      | writeFailed => exact hends (Or.inr ⟨hevent, Or.inr rfl⟩)
      | senderDropped => exact (hwired.held o (Or.inr h.registered)).2 _ hmem rfl

theorem Secure.served (h : s.Secure c n) (hwired : Wired s)
    (hevents : s.events = e :: events) (hends : ¬ e.EndsRegistration c n) :
    (s.served env e events).Secure c n := by
  refine ⟨?_, ?_⟩
  · obtain ⟨client, hclient, htx⟩ := h.holds
    refine ⟨client, ?_, htx⟩
    rw [served_clients]
    cases hevent : e.event with
    | input ev => exact hclient
    | clientMessage m msg => exact hclient
    | clipboardChanged content => exact hclient
    | newClient m position w hgt tx =>
        have hne : n ≠ m := by
          rintro rfl
          exact hends (Or.inl ⟨position, w, hgt, tx, hevent⟩)
        rw [Server.clientsAfter, AList.lookup_insert_ne hne]
        exact hclient
    | clientDisconnected m =>
        have hne : n ≠ m := by
          rintro rfl
          exact h.no_report hwired hevents hends hevent
        rw [Server.clientsAfter, AList.lookup_erase_ne hne]
        exact hclient
  · intro o ho hname
    rw [(served_identity o).name] at hname
    rcases h.alone o ho hname with hfresh | hretired
    · refine Or.inl (hfresh.served hevents ?_)
      intro hsource
      have hgenuine := hwired.first hevents
      cases hgenuine with
      | newClient a =>
          have hao : a = o := Source.handler.inj hsource
          rw [hao, hname] at hends
          exact hends (Or.inl ⟨_, _, _, _, rfl⟩)
      | input => cases hsource
      | copied => cases hsource
      | message => cases hsource
      | readerGone => cases hsource
      | writerGone => cases hsource
    · exact Or.inr (hretired.served hevents)

theorem Secure.step {l : Label} (h : s.Secure c n) (hwired : Wired s)
    (hkept : ¬ Releases c n s l) (hstep : s.Step l s') : s'.Secure c n := by
  cases hstep with
  | accept => exact h.accept nofun
  | conn hk =>
      apply h.setConn hk.identity hk.ended
      rw [hk.reader]
      exact id
  | stopWriter hwriter =>
      refine h.setConn ⟨rfl, rfl, rfl, rfl, rfl⟩ ?_ id
      rw [hwriter]
      nofun
  | emit hk => exact h.emitted hk
  | capture => exact h.push rfl
  | copied => exact h.push rfl
  | serve hevents =>
      exact h.served hwired hevents fun hends => hkept ⟨_, _, hevents, hends⟩

/-- Handling a connection's `NewClient` registers it, and the others stay what they are. -/
theorem secure_of_newClient {position : ScreenPosition} {w hgt : Int32}
    (hevents : s.events = ⟨.handler c, .newClient n position w hgt c⟩ :: events)
    (halone : s.Alone c n) (env : Env ConnId) :
    (s.served env ⟨.handler c, .newClient n position w hgt c⟩ events).Secure c n := by
  refine ⟨⟨⟨position, w, hgt, c⟩, ?_, rfl⟩, ?_⟩
  · show (s.server.clients.insert n ⟨position, w, hgt, c⟩).lookup n = _
    exact AList.lookup_insert ..
  · intro o ho hname
    rw [(served_identity o).name] at hname
    rcases halone o ho hname with hfresh | hretired
    · refine Or.inl (hfresh.served hevents ?_)
      exact fun hsource => ho (Source.handler.inj hsource).symm
    · exact Or.inr (hretired.served hevents)

/-! ## Every run -/

/-- Along the runs whose steps meet `G`: once a connection's `NewClient` has been handled, the
connection holds its name in every later state up to an event that ends the registration. -/
def RegistrationKept (config : ServerConfig) (G : System → Label → Prop) : Prop :=
  ∀ (s s' t : System) (env : Env ConnId) (ls : List Label) (c : ConnId) (n : String)
    (position : ScreenPosition) (w h : Int32) (events : List Event),
    (System.lts config).Reach G s →
    s.events = ⟨.handler c, .newClient n position w h c⟩ :: events →
    G s (.serve env) → s.next (.serve env) = some s' →
    LTS.Steps (System.lts config) (fun s l => G s l ∧ ¬ Releases c n s l) s' ls t → t.Holds c n

theorem registration_kept (config : ServerConfig) (hsized : config.Sized) :
    RegistrationKept config RivalsRetired := by
  intro s s' t env ls c n position w h events hreach hevents halone hnext hsteps
  have hsound := sound_reach hsized hreach
  have hs' : s' = s.served env ⟨.handler c, .newClient n position w h c⟩ events := by
    rw [next_serve env hevents] at hnext
    exact (Option.some.inj hnext).symm
  have hsound' : Sound config s' := hsound.step hsized (step_of_next hnext)
  have hsecure : Secure s' c n := by
    rw [hs']
    exact secure_of_newClient hevents (halone c n position w h events hevents) env
  have hboth : Sound config t ∧ Secure t c n := by
    refine hsteps.invariant (I := fun s => Sound config s ∧ Secure s c n) ?_ ⟨hsound', hsecure⟩
    rintro s l s' ⟨hsound, hsecure⟩ ⟨_, hkept⟩ hnext
    have hstep := step_of_next hnext
    exact ⟨hsound.step hsized hstep, hsecure.step hsound.wired hkept hstep⟩
  exact hboth.2.holds

/-- The laptop is registered and goes away: its reader reports that, and its writer, whose sender is
dropped with the registration, ends and reports too. Then it comes back and is announced. -/
def comesBack : List Label :=
  let env : Env ConnId := ⟨0, HashOrder.entries ConnId⟩
  [.accept 0 laptop ClipboardManager.new 0 0, .emit 0 .announce, .serve env, .conn 0 .stop,
    .emit 0 .readerReport, .serve env, .stopWriter 0, .emit 0 .writerReport, .serve env,
    .accept 1 laptop ClipboardManager.new 0 0, .emit 1 .announce]

/-- The new connection is given control, and hears of it. -/
def usedAgain : List Label :=
  [.capture (.mouseMove (-1000) 0), .serve ⟨0, HashOrder.entries ConnId⟩, .conn 1 .recv,
    .conn 1 .written, .conn 1 (.batch 1 [] ⟨1, 1, 1⟩ true)]

/-- The laptop is registered a second time, when its first connection has retired, and stays registered
while it is given control. -/
theorem registration_kept_comesBack :
    ∃ s s' t, (System.lts Server.leftConfig).exec
        (System.new Server.leftConfig ClipboardManager.new 0) comesBack = some s ∧
      (s.conns 0).name = "laptop" ∧ s.Retired 0 ∧
      s.next (.serve ⟨0, HashOrder.entries ConnId⟩) = some s' ∧
      (System.lts Server.leftConfig).exec s' usedAgain = some t ∧
      (t.conns 1).client.state.active = true ∧ t.Holds 1 "laptop" := by
  have hsilent : ∀ e : Event, e ∈ ([] : List Event) → ∀ m, e.event ≠ .clientDisconnected m := by
    intro e he
    cases he
  refine ⟨_, _, _, rfl, rfl, ⟨rfl, rfl, hsilent⟩, rfl, rfl, rfl, ?_⟩
  refine registration_kept Server.leftConfig ⟨by decide, by decide⟩ _ _ _
    ⟨0, HashOrder.entries ConnId⟩ usedAgain 1 "laptop" .left 800 600 [] ⟨_, comesBack,
      ⟨ClipboardManager.new, 0, rfl⟩, LTS.steps_of_exec rfl ⟨trivial, trivial, ?_, trivial, trivial, ?_,
        trivial, trivial, ?_, trivial, trivial, trivial⟩⟩ rfl ?_ rfl
    (LTS.steps_of_exec rfl ⟨⟨trivial, id⟩, ⟨?_, ?_⟩, ⟨trivial, id⟩, ⟨trivial, id⟩, ⟨trivial, id⟩,
      trivial⟩)
  · -- nobody else is there
    rintro c n position w h events heq o ho -
    cases heq
    refine Or.inl (Or.inl ?_)
    simp [System.setConn, System.push, Function.update_of_ne ho, System.new, Conn.absent]
  · rintro c n position w h events heq
    cases heq
  · rintro c n position w h events heq
    cases heq
  · -- the first connection has retired
    rintro c n position w h events heq o ho -
    cases heq
    by_cases hfirst : o = 0
    · subst hfirst
      exact Or.inr ⟨rfl, rfl, hsilent⟩
    · refine Or.inl (Or.inl ?_)
      simp [System.setConn, System.push, Server.handle, Function.update_of_ne ho,
        Function.update_of_ne hfirst, System.new, Conn.absent]
  · rintro c n position w h events heq
    cases heq
  · rintro ⟨e, events, heq, hends⟩
    cases heq
    rcases hends with ⟨_, _, _, _, hevent⟩ | ⟨hevent, _⟩ <;> cases hevent

/-- A laptop connects twice under its name; the second connection replaces the first, whose writer
then runs out of senders. -/
def reconnect : List Label :=
  let env : Env ConnId := ⟨0, HashOrder.entries ConnId⟩
  [.accept 0 laptop ClipboardManager.new 0 0, .emit 0 .announce, .serve env,
    .accept 1 laptop ClipboardManager.new 0 0, .emit 1 .announce]

/-- The report of the writer that was replaced removes the connection that replaced it. -/
theorem registration_lost :
    ¬ ∀ config : ServerConfig, config.Sized → RegistrationKept config LTS.anyStep := by
  intro hall
  let env : Env ConnId := ⟨0, HashOrder.entries ConnId⟩
  have hholds := hall Server.leftConfig ⟨by decide, by decide⟩ _ _ _ env
    [.stopWriter 0, .emit 0 .writerReport, .serve env] 1 "laptop" .left 800 600 []
    ⟨_, reconnect, ⟨ClipboardManager.new, 0, rfl⟩,
      LTS.steps_of_exec rfl (LTS.guarded_anyStep _ _)⟩ rfl trivial rfl
    (LTS.steps_of_exec rfl ⟨⟨trivial, id⟩, ⟨trivial, id⟩, ⟨trivial, ?_⟩, trivial⟩)
  · obtain ⟨client, hclient, _⟩ := hholds
    cases hclient
  · rintro ⟨e, events, heq, hends⟩
    cases heq
    rcases hends with ⟨_, _, _, _, hevent⟩ | ⟨_, hsource | hsource⟩
    · cases hevent
    · cases hsource
    · cases hsource

end System

end Bluecross
