/-
# Bluecross.HeldKeys — which keys a client is left holding.

Presses and releases are separate messages, and a hand-over can come between them. The client injects
neither on its own account: when it hands control back, what it holds stays held, and a release that
finds it inactive is discarded.

Two logs are kept along a run. `captured` lists the presses that the server handled, each with whether
a client was active, and `received` those that the client's loop took off the wire, each with whether
it was active. With one client, no full queue and no failure the forwarded presses are the received
ones followed by those in flight, in order (`Recorded`). From this `held_iff_leftDown`: a key is held
exactly when the last of its presses that reached an active client was not a release.
-/
import Bluecross.Presses
import Bluecross.Holder

namespace Bluecross

open Lib (LTS)

/-! ## Logs -/

/-- The presses that were captured and the presses that were received; the marked ones were forwarded,
and injected. -/
structure Log where
  captured : List (Press × Bool)
  received : List (Press × Bool)

/-- A press of the key was forwarded and injected, and every later one of the key was either not
forwarded or discarded. -/
def Log.LeftDown (log : Log) (key : Key) : Prop :=
  ∃ before p after heardBefore heardAfter,
    log.captured = before ++ (p, true) :: after ∧
    log.received = heardBefore ++ (p, true) :: heardAfter ∧
    marked before = heardBefore.map Prod.fst ∧ marked after = heardAfter.map Prod.fst ∧
    p.key = key ∧ p.value ≠ 0 ∧ ∀ q ∈ heardAfter, q.1.key = key → q.2 = false

/-- The presses of a captured event. -/
def Event.presses (e : Event) : List Press :=
  match e.event with
  | .input ev => ev.pressed.toList
  | _ => []

theorem Event.presses_cases (e : Event) :
    e.presses = [] ∨ ∃ ev p, e.event = .input ev ∧ ev.pressed = some p ∧ e.presses = [p] := by
  unfold Event.presses
  cases e.event with
  | newClient => exact Or.inl rfl
  | clientMessage => exact Or.inl rfl
  | clientDisconnected => exact Or.inl rfl
  | clipboardChanged => exact Or.inl rfl
  | input ev =>
      cases hev : ev.pressed with
      | none => exact Or.inl (by simp only [hev, Option.toList_none])
      | some p => exact Or.inr ⟨ev, p, rfl, hev, by simp only [hev, Option.toList_some]⟩

/-- The writer is in its loop. -/
def WriterTask.Working (w : WriterTask) : Prop := w = .idle ∨ ∃ msg, w = .writing msg

theorem WriterTask.Working.not_stopping {w : WriterTask} (h : w.Working) (cause : StopCause) :
    w ≠ .stopping cause := by
  rcases h with rfl | ⟨msg, rfl⟩ <;> nofun

theorem WriterTask.Working.not_ended {w : WriterTask} (h : w.Working) : w ≠ .ended := by
  rcases h with rfl | ⟨msg, rfl⟩ <;> nofun

/-- Values of one key that alternate, from a press on. -/
def Alternates : List Int32 → Prop
  | [] => True
  | [v] => v ≠ 0
  | v :: w :: rest => v ≠ 0 ∧ w = 0 ∧ Alternates rest

/-- Of each key presses and releases are captured in turn. -/
def Log.Alternating (log : Log) : Prop :=
  ∀ key, Alternates ((log.captured.filter fun entry => entry.1.key = key).map fun entry =>
    entry.1.value)

namespace System

/-- What a step adds to the logs. -/
def note (s : System) : Label → Log → Log
  | .serve _, log =>
      match s.events with
      | [] => log
      | e :: _ =>
          { log with
            captured := log.captured ++ e.presses.map fun p => (p, s.server.activeClient.isSome) }
  | .conn c (.batch first rest exit _), log =>
      match Batch.take first rest exit (s.conns c).down with
      | some (b, _) =>
          { log with received := log.received ++ heard (s.conns c).client.state.active b.messages }
      | none => log
  | _, log => log

/-- One client connects, no `try_send` finds a queue full, and no connection fails. -/
def Undisturbed (s : System) : Label → Prop
  | .accept _ _ _ _ _ => ∀ c, (s.conns c).phase = .absent
  | .conn _ .failed => False
  | .conn _ .stop => False
  | .conn _ (.batch _ _ _ sendOk) => sendOk = true
  | .emit _ .readerReport => False
  | .serve env => ∀ e events, s.events = e :: events →
      (s.server.handle env (⟨s.conns, false⟩ : Watched Conns) e.event).2.full = false
  | _ => True

/-! ## One client -/

/-- There is one connection at most, its tasks work, and it is not given up. -/
structure Single (s : System) : Prop where
  alone : ∀ c c', (s.conns c).phase ≠ .absent → (s.conns c').phase ≠ .absent → c = c'
  working : ∀ c, (s.conns c).writer.Working
  known : ∀ c, s.Fresh c ∨ s.Registered c
  calm : ∀ e ∈ s.events, ∀ m, e.event ≠ .clientDisconnected m

variable {s s' : System} {log : Log}

theorem Single.setConn (h : Single s) {c : ConnId} {k : Conn}
    (hphase : k.phase = (s.conns c).phase)
    (hwriter : k.writer.Working) : Single (s.setConn c k) := by
  have hsame : ∀ c', ((s.setConn c k).conns c').phase = (s.conns c').phase :=
    setConn_forall (P := fun k₁ k₂ => k₂.phase = k₁.phase) (fun _ => rfl) hphase
  refine ⟨?_, ?_, ?_, h.calm⟩
  · intro c₁ c₂ h₁ h₂
    rw [hsame] at h₁ h₂
    exact h.alone c₁ c₂ h₁ h₂
  · intro c'
    by_cases hc : c' = c
    · rw [hc, conns_setConn_self]
      exact hwriter
    · rw [conns_setConn_of_ne hc]
      exact h.working c'
  · intro c'
    refine (h.known c').imp_left fun hfresh => hfresh.setConn ?_
    rw [hphase]
    exact id

theorem Single.push (h : Single s) {e : Event} (he : ∀ m, e.event ≠ .clientDisconnected m) :
    Single (s.push e) := by
  refine ⟨h.alone, h.working, ?_, ?_⟩
  · intro c
    exact (h.known c).imp_left fun hfresh => hfresh.push e
  · intro e' he'
    rcases List.mem_append.mp he' with hold | hlast
    · exact h.calm e' hold
    · rw [List.mem_singleton.mp hlast]
      exact he

theorem Single.accept (h : Single s) {c : ConnId} {k : Conn}
    (hnone : ∀ c, (s.conns c).phase = .absent) (hphase : k.phase = .accepted)
    (hwriter : k.writer = .idle) : Single (s.setConn c k) := by
  have hother : ∀ c', c' ≠ c → ((s.setConn c k).conns c').phase = .absent := by
    intro c' hc
    rw [conns_setConn_of_ne hc]
    exact hnone c'
  have honly : ∀ c', ((s.setConn c k).conns c').phase ≠ .absent → c' = c := by
    intro c' hne
    by_contra hc
    exact hne (hother c' hc)
  refine ⟨?_, ?_, ?_, h.calm⟩
  · intro c₁ c₂ h₁ h₂
    rw [honly c₁ h₁, honly c₂ h₂]
  · intro c'
    by_cases hc : c' = c
    · rw [hc, conns_setConn_self]
      exact Or.inl hwriter
    · rw [conns_setConn_of_ne hc]
      exact h.working c'
  · intro c'
    refine Or.inl (Or.inl ?_)
    by_cases hc : c' = c
    · rw [hc, conns_setConn_self, hphase]
      nofun
    · rw [hother c' hc]
      nofun

variable {env : Env ConnId} {e : Event} {events : List Event}

/-- The registered connection stays registered, as nobody else comes and no disconnect is reported. -/
theorem Single.served (h : Single s) (hwired : Wired s) (hevents : s.events = e :: events) :
    Single (s.served env e events) := by
  have hmem := first_mem hevents
  refine ⟨?_, ?_, ?_, ?_⟩
  · intro c₁ c₂ h₁ h₂
    rw [(served_identity _).phase] at h₁ h₂
    exact h.alone c₁ c₂ h₁ h₂
  · intro c
    rw [served_writer]
    exact h.working c
  · intro c
    have hgenuine := hwired.genuine e hmem
    by_cases hsource : e.source = .handler c
    · right
      unfold Registered
      rw [served_clients]
      cases hgenuine with
      | newClient c' =>
          rw [Source.handler.inj hsource]
          exact ⟨_, _, AList.lookup_insert .., rfl⟩
      | input => cases hsource
      | copied => cases hsource
      | message => cases hsource
      | readerGone => cases hsource
      | writerGone => cases hsource
    · rcases h.known c with hfresh | hregistered
      · exact Or.inl (hfresh.served hevents hsource)
      · right
        have hsame : (s.served env e events).server.clients = s.server.clients := by
          rw [served_clients]
          cases hgenuine with
          | newClient c' =>
              exfalso
              obtain ⟨name, client, hclient, rfl⟩ := hregistered
              refine hsource (congrArg _ (h.alone _ _ (hwired.present hevents rfl) ?_))
              rw [(hwired.announced hclient).1]
              nofun
          | readerGone => exact absurd rfl (h.calm _ hmem _)
          | writerGone => exact absurd rfl (h.calm _ hmem _)
          | input => rfl
          | copied => rfl
          | message => rfl
        unfold Registered
        rw [hsame]
        exact hregistered
  · intro e' he'
    apply h.calm
    rw [hevents]
    exact List.mem_cons_of_mem e he'

/-- Of the events that a connection sends only reports would disturb. -/
theorem Single.emitted (h : Single s) {c : ConnId} {what : Emit} {k : Conn} {e : Event}
    (hguard : s.Undisturbed (.emit c what)) (hk : (s.conns c).Emits c what k e) :
    Single ((s.setConn c k).push e) := by
  have hnot := (h.working c).not_stopping
  refine ⟨?_, ?_, ?_, ?_⟩
  · have hpresent : ∀ c', ((s.setConn c k).conns c').phase ≠ .absent →
        (s.conns c').phase ≠ .absent := by
      refine setConn_forall (P := fun k₁ k₂ => k₂.phase ≠ .absent → k₁.phase ≠ .absent)
        (fun _ => id) ?_
      cases hk with
      | announce hphase =>
          rw [hphase]
          exact fun _ => nofun
      | writerReport => exact id
      | readerDeliver => exact id
      | readerReport => exact id
    intro c₁ c₂ h₁ h₂
    exact h.alone c₁ c₂ (hpresent c₁ h₁) (hpresent c₂ h₂)
  · intro c'
    refine setConn_forall (P := fun k₁ k₂ => k₁.writer.Working → k₂.writer.Working) (fun _ => id) ?_
      c' (h.working c')
    cases hk with
    | announce => exact id
    | writerReport hstopping => exact absurd hstopping (hnot _)
    | readerDeliver => exact id
    | readerReport => exact id
  · intro c'
    exact (h.known c').imp_left fun hfresh => hfresh.emitted hk
  · intro e' he'
    rcases List.mem_append.mp he' with hold | hlast
    · exact h.calm e' hold
    · rw [List.mem_singleton.mp hlast]
      cases hk with
      | announce => nofun
      | readerDeliver => nofun
      | writerReport hstopping => exact absurd hstopping (hnot _)
      | readerReport => exact absurd hguard id

theorem Single.step {l : Label} (h : Single s) (hwired : Wired s) (hguard : s.Undisturbed l)
    (hstep : s.Step l s') : Single s' := by
  cases hstep with
  | accept => exact h.accept hguard rfl rfl
  | capture => exact h.push nofun
  | copied => exact h.push nofun
  | serve hevents => exact h.served hwired hevents
  | @stopWriter c _ _ hdead =>
      have halive := (senderAlive_iff s c).mpr (h.known c)
      rw [hdead] at halive
      cases halive
  | conn hk =>
      apply h.setConn hk.identity.phase
      cases hk with
      | recv => exact Or.inr ⟨_, rfl⟩
      | written => exact Or.inl rfl
      | failed => exact absurd hguard id
      | stop => exact absurd hguard id
      | send => exact h.working _
      | batch =>
          rw [Conn.takeBatch_writer]
          exact h.working _
  | emit hk => exact h.emitted hguard hk

/-! ## What the logs say -/

/-- The forwarded presses are those received and those in flight, in order, and the presses injected
are those that found the client active. -/
structure Recorded (s : System) (log : Log) : Prop where
  untold : (∀ c, (s.conns c).phase = .absent) → marked log.captured = [] ∧ log.received = []
  path : ∀ c, (s.conns c).phase ≠ .absent → marked log.captured
    = log.received.map Prod.fst ++ (s.conns c).toClient.filterMap Message.pressed
  devices : ∀ c, (s.conns c).phase ≠ .absent → (s.conns c).client.injector.Ready ∧
    (s.conns c).client.injector.presses = marked log.received

/-- A step of a connection that moves presses along and injects none. -/
theorem Recorded.setConn (h : Recorded s log) {c : ConnId} {k : Conn}
    (hphase : k.phase ≠ .absent ↔ (s.conns c).phase ≠ .absent)
    (hpath : k.toClient = (s.conns c).toClient) (hclient : k.client = (s.conns c).client) :
    Recorded (s.setConn c k) log := by
  have hpresent : ∀ c', ((s.setConn c k).conns c').phase ≠ .absent ↔
      (s.conns c').phase ≠ .absent :=
    setConn_forall (P := fun k₁ k₂ => k₂.phase ≠ .absent ↔ k₁.phase ≠ .absent)
      (fun _ => Iff.rfl) hphase
  refine ⟨?_, ?_, ?_⟩
  · intro hnone
    refine h.untold fun c' => ?_
    by_contra hne
    exact (hpresent c').mpr hne (hnone c')
  · intro c' hne
    have hsame : ((s.setConn c k).conns c').toClient = (s.conns c').toClient :=
      setConn_forall (P := fun k₁ k₂ => k₂.toClient = k₁.toClient) (fun _ => rfl) hpath c'
    rw [hsame]
    exact h.path c' ((hpresent c').mp hne)
  · intro c' hne
    have hsame : ((s.setConn c k).conns c').client = (s.conns c').client :=
      setConn_forall (P := fun k₁ k₂ => k₂.client = k₁.client) (fun _ => rfl) hclient c'
    rw [hsame]
    exact h.devices c' ((hpresent c').mp hne)

theorem Recorded.push (h : Recorded s log) (e : Event) : Recorded (s.push e) log :=
  ⟨h.untold, h.path, h.devices⟩

/-- The one client connects; nothing has been captured for it or received by it. -/
theorem Recorded.accept (h : Recorded s log) {c : ConnId} {k : Conn}
    (hnone : ∀ c, (s.conns c).phase = .absent) (hpath : k.toClient = [])
    (hready : k.client.injector.Ready) (hpresses : k.client.injector.presses = [])
    (hphase : k.phase ≠ .absent) : Recorded (s.setConn c k) log := by
  obtain ⟨hcaptured, hreceived⟩ := h.untold hnone
  have honly : ∀ c', ((s.setConn c k).conns c').phase ≠ .absent → c' = c := by
    intro c' hne
    by_contra hc
    rw [conns_setConn_of_ne hc] at hne
    exact hne (hnone c')
  refine ⟨?_, ?_, ?_⟩
  · intro habsent
    have hc := habsent c
    rw [conns_setConn_self] at hc
    exact absurd hc hphase
  · intro c' hne
    rw [honly c' hne, conns_setConn_self, hpath, hcaptured, hreceived]
    rfl
  · intro c' hne
    rw [honly c' hne, conns_setConn_self, hpresses, hreceived]
    exact ⟨hready, rfl⟩

/-- A batch: its presses leave the wire and enter the log, and those that find the client active enter
the devices. -/
theorem Recorded.batch (h : Recorded s log) (hsingle : Single s) {c : ConnId} {b : Batch}
    {wire : List Message} (hpresent : (s.conns c).phase ≠ .absent)
    (hdown : (s.conns c).down = b.messages ++ wire) :
    Recorded (s.setConn c ((s.conns c).takeBatch b wire true))
      { log with
        received := log.received ++ heard (s.conns c).client.state.active b.messages } := by
  let k := (s.conns c).takeBatch b wire true
  have hfields : k.client = ((s.conns c).client.handleBatch b).1 ∧
      k.toClient = wire ++ ((s.conns c).inHand ++ (s.conns c).queue) := by
    simp only [k]
    rcases hback : ((s.conns c).client.handleBatch b).2 with _ | _
    · rw [Conn.takeBatch_kept hback]
      exact ⟨rfl, rfl⟩
    · rw [Conn.takeBatch_back hback]
      exact ⟨rfl, rfl⟩
  obtain ⟨hclient, hpath⟩ := hfields
  have hphase : k.phase ≠ .absent := by
    rw [((s.conns c).takeBatch_identity b wire true).phase]
    exact hpresent
  -- the connection is the only one, so what is said of every connection is said of it
  have honly : ∀ c', ((s.setConn c k).conns c').phase ≠ .absent → c' = c := by
    intro c' hne
    by_contra hc
    rw [conns_setConn_of_ne hc] at hne
    exact hc (hsingle.alone c' c hne hpresent)
  obtain ⟨hready, hpresses⟩ := h.devices c hpresent
  have hbatch := Client.handleBatch_presses hready b
  refine ⟨?_, ?_, ?_⟩
  · intro hnone
    have hc := hnone c
    rw [conns_setConn_self] at hc
    exact absurd hc hphase
  · intro c' hne
    have hbefore := h.path c hpresent
    -- the presses of the batch change from in flight to received
    rw [honly c' hne, conns_setConn_self, hpath, List.map_append, map_fst_heard, hbefore, Conn.toClient,
      hdown]
    simp only [List.filterMap_append, List.append_assoc]
  · intro c' hne
    rw [honly c' hne, conns_setConn_self, hclient, marked_append]
    refine ⟨hbatch.ready, ?_⟩
    rw [hbatch.presses, hpresses]

theorem note_serve (hevents : s.events = e :: events) (log : Log) :
    s.note (.serve env) log = { log with
      captured := log.captured ++ e.presses.map fun p => (p, s.server.activeClient.isSome) } := by
  unfold note
  simp only [hevents]

/-- The path after an event: more may be queued for the client. -/
theorem served_path (env : Env ConnId) (e : Event) (events : List Event) (c : ConnId) :
    ∃ more, ((s.served env e events).conns c).toClient = (s.conns c).toClient ++ more ∧
      (∀ msg ∈ more, Server.MayQueue msg e.event) ∧
    ((s.served env e events).conns c).client = (s.conns c).client := by
  obtain ⟨more, hc, hkinds, _⟩ := served_queued env e events c
  refine ⟨more, ?_, hkinds, ?_⟩
  · rw [hc]
    simp only [Conn.toClient, Conn.inHand, List.append_assoc]
  · rw [hc]

/-- An event, when each press it captures for an active client is queued behind what is in flight. -/
theorem Recorded.served_of_path (h : Recorded s log) (hevents : s.events = e :: events)
    (huntold : (∀ c, (s.conns c).phase = .absent) →
      s.server.activeClient = none ∨ e.presses = [])
    (hpath : ∀ c, (s.conns c).phase ≠ .absent →
      ((s.served env e events).conns c).toClient.filterMap Message.pressed
        = (s.conns c).toClient.filterMap Message.pressed
          ++ if s.server.activeClient.isSome then e.presses else []) :
    Recorded (s.served env e events) (s.note (.serve env) log) := by
  have hmarked : marked (e.presses.map fun p => (p, s.server.activeClient.isSome))
      = if s.server.activeClient.isSome then e.presses else [] := by
    unfold marked
    rw [List.filterMap_map]
    cases s.server.activeClient with
    | none => exact List.filterMap_eq_nil_iff.mpr fun _ _ => rfl
    | some name => exact List.filterMap_some
  rw [note_serve hevents]
  refine ⟨?_, ?_, ?_⟩
  · intro hnone
    have hbefore : ∀ c, (s.conns c).phase = .absent := by
      intro c
      have hsame : ((s.served env e events).conns c).phase = (s.conns c).phase :=
        (served_identity c).phase
      rw [← hsame]
      exact hnone c
    -- with nobody there nobody is active, so no press is marked
    obtain ⟨hcaptured, hreceived⟩ := h.untold hbefore
    refine ⟨?_, hreceived⟩
    rw [marked_append, hcaptured, hmarked]
    rcases huntold hbefore with hidle | hempty
    · rw [hidle]
      rfl
    · rw [hempty]
      split <;> rfl
  · intro c hne
    rw [(served_identity c).phase] at hne
    rw [marked_append, hmarked, h.path c hne, hpath c hne, List.append_assoc]
  · intro c hne
    obtain ⟨_, _, _, hclient⟩ := served_path (s := s) env e events c
    rw [(served_identity c).phase] at hne
    rw [hclient]
    exact h.devices c hne

theorem Recorded.served (h : Recorded s log) (hcoherent : Coherent s.server) (hwired : Wired s)
    (hsingle : Single s) (hguard : s.Undisturbed (.serve env)) (hevents : s.events = e :: events) :
    Recorded (s.served env e events) (s.note (.serve env) log) := by
  rcases e.presses_cases with hempty | ⟨ev, p, hinput, hev, hone⟩
  · -- nothing is captured, and nothing is queued that presses
    refine h.served_of_path hevents (fun _ => Or.inr hempty) fun c _ => ?_
    obtain ⟨more, hpath, hkinds, _⟩ := served_path (s := s) env e events c
    have hnone : more.filterMap Message.pressed = [] := by
      refine List.filterMap_eq_nil_iff.mpr fun msg hmsg => ?_
      by_contra hne
      obtain ⟨p, hp⟩ := Option.ne_none_iff_exists'.mp hne
      obtain ⟨ev, hinput, hev⟩ := Server.pressed_of_mayQueue (hkinds msg hmsg) hp
      rw [Event.presses, hinput] at hempty
      simp only [hev, Option.toList_some, reduceCtorEq] at hempty
    rw [hpath, List.filterMap_append, hnone, hempty, ite_self]
  · obtain ⟨msg, hmsg, hforward⟩ := Server.handleInput_of_pressed hev
    have hhandle : (s.served env e events).conns
        = (s.server.forwardToActive s.conns msg true).2 := by
      show (s.server.handle env s.conns e.event).2 = _
      rw [hinput, ← hforward env s.server s.conns]
      rfl
    rcases hactive : s.server.activeClient with _ | name
    · refine h.served_of_path hevents (fun _ => Or.inl hactive) fun c _ => ?_
      rw [hhandle, Server.forwardToActive_of_none hactive, hactive]
      exact (List.append_nil _).symm
    · -- the active client is the one that is connected, and its queue had room
      obtain ⟨client, hclient⟩ := Option.isSome_iff_exists.mp
        (AList.lookup_isSome.mpr (hcoherent.registered name hactive))
      have hpresent : (s.conns client.tx).phase ≠ .absent := by
        rw [(hwired.announced hclient).1]
        nofun
      have hkept := hguard e events hevents
      rw [hinput, show s.server.handle env (⟨s.conns, false⟩ : Watched Conns) (.input ev)
        = s.server.forwardToActive _ msg true from hforward env s.server _] at hkept
      obtain ⟨motion, hmotion, hqueued⟩ := Server.forwardToActive_kept hactive hclient
        (hsingle.working client.tx).not_ended hkept
      have hnone : motion.filterMap Message.pressed = [] :=
        List.filterMap_eq_nil_iff.mpr fun m hm => Message.pressed_eq_none (hmotion m hm)
      refine h.served_of_path hevents (fun habsent => absurd (habsent _) hpresent) fun c hc => ?_
      have hself : c = client.tx := hsingle.alone c client.tx hc hpresent
      rw [hhandle, hqueued, hself, Conns.enqueue, Function.update_self, hactive, hone]
      simp only [Conn.toClient, Conn.inHand, List.filterMap_append, hnone, List.nil_append,
        List.filterMap_cons_some hmsg, List.filterMap_nil, List.append_assoc, Option.isSome_some,
        if_true]

/-- A step of one connection. -/
theorem Recorded.conn (h : Recorded s log) (hwired : Wired s) (hsingle : Single s) {c : ConnId}
    {step : ConnStep} (hguard : s.Undisturbed (.conn c step)) {k : Conn}
    (hnext : (s.conns c).next step = some k) :
    Recorded (s.setConn c k) (s.note (.conn c step) log) := by
  have hk := Conn.step_of_next hnext
  have hphase : k.phase ≠ .absent ↔ (s.conns c).phase ≠ .absent := by
    rw [hk.identity.phase]
  cases step with
  | failed => exact absurd hguard id
  | stop => exact absurd hguard id
  | send msg =>
      cases hk with
      | send => exact h.setConn hphase rfl rfl
  | recv =>
      cases hk with
      | recv hwriter hqueue => exact h.setConn hphase (Conn.toClient_recv hwriter hqueue) rfl
  | written =>
      cases hk with
      | written hwriter => exact h.setConn hphase (Conn.toClient_written hwriter) rfl
  | batch first rest exit sendOk =>
      have hsent : sendOk = true := hguard
      rw [hsent, Conn.next] at hnext
      split at hnext
      · obtain ⟨⟨b, wire⟩, htake, hk⟩ := Option.map_eq_some_iff.mp hnext
        have hdown := Batch.take_messages htake
        have hpresent : (s.conns c).phase ≠ .absent := by
          intro habsent
          have hfresh : s.Fresh c := Or.inl (by rw [habsent]; nofun)
          rw [(hwired.untouched c hfresh).down] at hdown
          cases hdown
        rw [← hk]
        show Recorded _ (match Batch.take first rest exit (s.conns c).down with
          | some (b, _) => _
          | none => _)
        rw [htake]
        exact h.batch hsingle hpresent hdown
      · cases hnext

theorem Recorded.step {l : Label} (h : Recorded s log) (hcoherent : Coherent s.server)
    (hwired : Wired s) (hsingle : Single s) (hguard : s.Undisturbed l)
    (hnext : s.next l = some s') : Recorded s' (s.note l log) := by
  cases l with
  | accept c config clipboard now₁ now₂ =>
      cases step_of_next hnext with
      | accept =>
          refine h.accept hguard rfl ⟨rfl, rfl⟩ rfl ?_
          intro hphase
          cases hphase
  | conn c step =>
      obtain ⟨k, hk, rfl⟩ := Option.map_eq_some_iff.mp hnext
      exact h.conn hwired hsingle hguard hk
  | stopWriter c =>
      cases step_of_next hnext with
      | stopWriter hwriter =>
          refine h.setConn Iff.rfl ?_ rfl
          simp only [Conn.toClient, Conn.inHand, hwriter]
  | emit c what =>
      cases step_of_next hnext with
      | emit hk =>
          refine Recorded.push (h.setConn ?_ ?_ ?_) _
          · cases hk with
            | announce hphase =>
                rw [hphase]
                constructor
                all_goals
                  intro _ hnot
                  cases hnot
            | writerReport => exact Iff.rfl
            | readerDeliver => exact Iff.rfl
            | readerReport => exact Iff.rfl
          · cases hk with
            | writerReport hwriter => simp only [Conn.toClient, Conn.inHand, hwriter]
            | announce => rfl
            | readerDeliver => rfl
            | readerReport => rfl
          · cases hk <;> rfl
  | capture ev =>
      cases step_of_next hnext with
      | capture => exact h.push _
  | copied content =>
      cases step_of_next hnext with
      | copied => exact h.push _
  | serve env =>
      cases step_of_next hnext with
      | serve hevents => exact h.served hcoherent hwired hsingle hguard hevents

/-! ## Every run -/

/-- The logs of a run. -/
def logs (config : ServerConfig) (s : System) (ls : List Label) : Log :=
  (System.lts config).record note s ls ⟨[], []⟩

theorem recorded_run {config : ServerConfig} (hsized : config.Sized) {t : System} {ls : List Label}
    (hinit : (System.lts config).init s)
    (hrun : LTS.Steps (System.lts config) Undisturbed s ls t) :
    Recorded t (logs config s ls) := by
  let I : System → Log → Prop := fun s log => Sound config s ∧ Single s ∧ Recorded s log
  have hall : I t (logs config s ls) := by
    refine hrun.record_invariant (I := I) ?_ ?_
    · rintro s l s' log ⟨hsound, hsingle, hrecorded⟩ hguard hnext
      have hstep := step_of_next hnext
      exact ⟨hsound.step hsized hstep, hsingle.step hsound.wired hguard hstep,
        hrecorded.step hsound.coherent hsound.wired hsingle hguard hnext⟩
    · obtain ⟨clipboard, now, rfl⟩ := hinit
      refine ⟨sound_new hsized clipboard now, ⟨?_, ?_, ?_, nofun⟩, ⟨fun _ => ⟨rfl, rfl⟩, ?_, ?_⟩⟩
      · intro c c' hc
        exact absurd rfl hc
      · exact fun _ => Or.inl rfl
      · exact fun _ => Or.inl (Or.inl nofun)
      · intro c hc
        exact absurd rfl hc
      · intro c hc
        exact absurd rfl hc
  exact hall.2.2

/-- A key is held when, of the marked presses, its last one is no release. -/
theorem held_iff {i : InputInjector} {received : List (Press × Bool)} (h : i.presses = marked received)
    (key : Key) : i.Held key ↔ ∃ before p after, received = before ++ (p, true) :: after ∧
      p.key = key ∧ p.value ≠ 0 ∧ ∀ q ∈ after, q.1.key = key → q.2 = false := by
  -- the last value of the key, read off the log from its end
  let f : Press × Bool → Option Int32 := fun entry =>
    (if entry.2 then some entry.1 else none).bind fun p => if p.key = key then some p.value else none
  have hsome : ∀ entry v, f entry = some v ↔
      entry.2 = true ∧ entry.1.key = key ∧ entry.1.value = v := by
    rintro ⟨p, marked⟩ v
    cases marked <;> simp [f]
  have hnone : ∀ entry, f entry = none ↔ (entry.1.key = key → entry.2 = false) := by
    rintro ⟨p, marked⟩
    cases marked <;> simp [f]
  have hvalue : i.valueOf key = (received.reverse.findSome? f).getD 0 := by
    unfold InputInjector.valueOf
    rw [h, marked, List.filterMap_filterMap, List.getLast?_filterMap]
  unfold InputInjector.Held
  rw [hvalue]
  constructor
  · intro hne
    obtain ⟨v, hv⟩ : ∃ v, received.reverse.findSome? f = some v := by
      cases hfound : received.reverse.findSome? f with
      | none =>
          rw [hfound] at hne
          exact absurd rfl hne
      | some v => exact ⟨v, rfl⟩
    rw [hv, Option.getD_some] at hne
    obtain ⟨later, ⟨p, hit⟩, earlier, hsplit, hhit, hlater⟩ := List.findSome?_eq_some_iff.mp hv
    obtain ⟨rfl, hkey, rfl⟩ := (hsome _ v).mp hhit
    refine ⟨earlier.reverse, p, later.reverse, ?_, hkey, hne, ?_⟩
    · rw [← List.reverse_reverse received, hsplit]
      simp
    · intro q hq
      exact (hnone q).mp (hlater q (List.mem_reverse.mp hq))
  · rintro ⟨before, p, after, rfl, hkey, hne, hafter⟩
    have hfound : (before ++ (p, true) :: after).reverse.findSome? f = some p.value := by
      refine List.findSome?_eq_some_iff.mpr ⟨after.reverse, (p, true), before.reverse, ?_, ?_, ?_⟩
      · simp
      · exact (hsome _ _).mpr ⟨rfl, hkey, rfl⟩
      · intro q hq
        exact (hnone q).mpr (hafter q (List.mem_reverse.mp hq))
    rw [hfound]
    exact hne

/-- A marked press is somewhere in the list, with the marked ones before and behind it. -/
theorem marked_eq_append_cons {log : List (Press × Bool)} {xs ys : List Press} {p : Press}
    (h : marked log = xs ++ p :: ys) :
    ∃ before after, log = before ++ (p, true) :: after ∧ marked before = xs ∧ marked after = ys := by
  -- what stands between the first part and the press is not marked, and goes with the first part
  obtain ⟨before, tail, rfl, hbefore, htail⟩ := List.filterMap_eq_append_iff.mp h
  obtain ⟨skipped, ⟨q, hit⟩, after, rfl, hskipped, hhit, hafter⟩ := List.filterMap_eq_cons_iff.mp htail
  cases hit with
  | false => cases hhit
  | true =>
      have hp : q = p := Option.some.inj hhit
      subst hp
      refine ⟨before ++ skipped, after, by rw [List.append_assoc], ?_, hafter⟩
      rw [marked_append, show marked skipped = [] from List.filterMap_eq_nil_iff.mpr hskipped,
        List.append_nil]
      exact hbefore

/-- With nothing in flight to the client, a key or button is held exactly when a press of it was
captured for the active client and reached the client while it was active, and every later event of it
was either captured while no client was active or reached the client while it was not. -/
theorem held_iff_leftDown (config : ServerConfig) (hsized : config.Sized) (s t : System)
    (ls : List Label) (hinit : (System.lts config).init s)
    (hrun : LTS.Steps (System.lts config) Undisturbed s ls t) (c : ConnId)
    (hpresent : (t.conns c).phase ≠ .absent) (hquiet : (t.conns c).toClient = []) (key : Key) :
    (t.conns c).client.injector.Held key ↔ (logs config s ls).LeftDown key := by
  have hrecorded := recorded_run hsized hinit hrun
  have hpath := hrecorded.path c hpresent
  rw [hquiet, List.filterMap_nil, List.append_nil] at hpath
  rw [held_iff (hrecorded.devices c hpresent).2]
  constructor
  · rintro ⟨heardBefore, p, heardAfter, hsplit, hkey, hne, hafter⟩
    rw [hsplit, List.map_append, List.map_cons] at hpath
    obtain ⟨before, after, hcaptured, hbefore, hlater⟩ := marked_eq_append_cons hpath
    exact ⟨before, p, after, heardBefore, heardAfter, hcaptured, hsplit, hbefore, hlater, hkey, hne,
      hafter⟩
  · rintro ⟨_, p, _, heardBefore, heardAfter, _, hsplit, _, _, hkey, hne, hafter⟩
    exact ⟨heardBefore, p, heardAfter, hsplit, hkey, hne, hafter⟩

/-! ## A key left down -/

/-- The laptop takes control, a key goes down, the pointer is pushed against the laptop's edge until
control goes back, and the key is let go. -/
def letGoLate : List Label :=
  let env (now : Instant) : Env ConnId := ⟨now, HashOrder.entries ConnId⟩
  let second : Instant := Duration.fromMillis 1000
  let deliver (now : Instant) : List Label :=
    [.serve (env now), .conn 0 .recv, .conn 0 .written, .conn 0 (.batch now [] ⟨now, now, now⟩ true)]
  [.accept 0 laptop ClipboardManager.new 0 0, .emit 0 .announce, .serve (env 0)]
    ++ .capture (.mouseMove (-1000) 0) :: deliver 0
    ++ .capture (.key 30 1) :: deliver 0
    ++ .capture (.mouseMove 200 0) :: deliver second
    ++ .capture (.mouseMove 10 0) :: deliver (2 * second)
    ++ [.emit 0 .readerDeliver, .serve (env (2 * second)), .capture (.key 30 0),
      .serve (env (2 * second))]

set_option maxRecDepth 8000 in
theorem undisturbed_letGoLate :
    (System.lts Server.leftConfig).Guarded Undisturbed
      (System.new Server.leftConfig ClipboardManager.new 0) letGoLate := by
  refine ⟨fun _ => rfl, trivial, ?_, trivial, ?_, trivial, trivial, rfl,
    trivial, ?_, trivial, trivial, rfl, trivial, ?_, trivial, trivial, rfl,
    trivial, ?_, trivial, trivial, rfl, trivial, ?_, trivial, ?_, trivial⟩
  all_goals
    rintro e events heq
    cases heq
    rfl

set_option maxRecDepth 8000 in
/-- Nothing is in flight, the laptop is inactive, and its virtual keyboard holds a key. -/
theorem keys_stay_down :
    ¬ ∀ config : ServerConfig, config.Sized → ∀ (s t : System) (ls : List Label),
      (System.lts config).init s → LTS.Steps (System.lts config) Undisturbed s ls t →
      (logs config s ls).Alternating → ∀ c, (t.conns c).phase ≠ .absent →
      (t.conns c).client.state.active = false → (t.conns c).toClient = [] → (t.conns c).up = [] →
      t.events = [] → ∀ key, ¬ (t.conns c).client.injector.Held key := by
  intro hall
  refine hall Server.leftConfig ⟨by decide, by decide⟩ _ _ letGoLate ⟨ClipboardManager.new, 0, rfl⟩
    (LTS.steps_of_exec rfl undisturbed_letGoLate) ?_ 0 nofun rfl rfl rfl rfl ⟨.keyboard, 30⟩ ?_
  · intro key
    show Alternates (([(⟨⟨.keyboard, 30⟩, 1⟩, true), (⟨⟨.keyboard, 30⟩, 0⟩, false)].filter
      fun entry : Press × Bool => entry.1.key = key).map fun entry => entry.1.value)
    by_cases hkey : (⟨.keyboard, 30⟩ : Key) = key
    · simp [hkey, Alternates]
    · simp [hkey, Alternates]
  · show (1 : Int32) ≠ 0
    decide

set_option maxRecDepth 8000 in
theorem held_iff_leftDown_letGoLate :
    ∃ t, (System.lts Server.leftConfig).exec (System.new Server.leftConfig ClipboardManager.new 0)
        letGoLate = some t ∧
      ((t.conns 0).client.injector.Held ⟨.keyboard, 30⟩ ↔
        (logs Server.leftConfig (System.new Server.leftConfig ClipboardManager.new 0)
          letGoLate).LeftDown ⟨.keyboard, 30⟩) :=
  ⟨_, rfl, held_iff_leftDown Server.leftConfig ⟨by decide, by decide⟩ _ _ letGoLate
    ⟨ClipboardManager.new, 0, rfl⟩ (LTS.steps_of_exec rfl undisturbed_letGoLate) 0 nofun rfl _⟩

end System

end Bluecross
