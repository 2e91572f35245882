/-
# Bluecross.Agreement — at rest the server and its clients agree on who has control.

Where no internal step is possible, no event waits, no message is on its way to or from a registered
client, and all tasks of its connection wait. That none of them can have ended unnoticed is `Reported`:
a reader or a writer that is over has left its report in the queue of events.

`rest_agrees`: a registered client is then active exactly when the server takes it for the active one,
and the devices are grabbed exactly when there is such a client. It rests on the token of `Holder` and
`ControlLoss`: there is at most one, the active client has it, and nothing is left of the path where it
could be but the client.
-/
import Bluecross.ControlLoss
import Bluecross.Quiescence
import Bluecross.StaleConnections

namespace Bluecross

open Lib (LTS)

/-- All tasks of the connection wait, and nothing is on its way in it. -/
structure Conn.AtRest (k : Conn) : Prop where
  queue : k.queue = []
  writer : k.writer = .idle
  down : k.down = []
  running : k.running = true
  up : k.up = []
  reader : k.reader = .running

/-- A task of the connection is over, and with it the connection for the server. -/
def Conn.Over (k : Conn) : Prop := k.reader = .ended ∨ k.writer = .ended

namespace System

variable {s s' : System} {config : ServerConfig}

/-! ## Nothing ends unreported -/

/-- A connection that is registered, or will be, and whose reader or writer is over has reported it,
and the report is not handled yet. -/
def Reported (s : System) : Prop :=
  ∀ c, s.Fresh c ∨ s.Registered c → (s.conns c).Over →
    ∃ e ∈ s.events, e.source.conn = some c ∧ e.event = .clientDisconnected (s.conns c).name

theorem live_of_step {l : Label} {c : ConnId} (hwired : Wired s) (hstep : s.Step l s')
    (h : s'.Fresh c ∨ s'.Registered c) : s.Fresh c ∨ s.Registered c :=
  h.elim (fun hfresh => Or.inl (fresh_of_step hstep hfresh))
    fun hregistered => (registered_of_step hwired hstep hregistered).symm

/-- A change of one connection that ends none of its tasks. -/
theorem Reported.setConn (h : Reported s) {c : ConnId} {k : Conn}
    (hlive : ∀ c', (s.setConn c k).Fresh c' ∨ (s.setConn c k).Registered c' →
      s.Fresh c' ∨ s.Registered c')
    (hk : k.Over → (s.conns c).Over ∧ k.name = (s.conns c).name) : Reported (s.setConn c k) := by
  intro c' hc' hover
  have hbefore : (s.conns c').Over ∧ ((s.setConn c k).conns c').name = (s.conns c').name :=
    setConn_forall (P := fun k₁ k₂ => k₂.Over → k₁.Over ∧ k₂.name = k₁.name) (fun _ h => ⟨h, rfl⟩)
      hk c' hover
  obtain ⟨e, he, hconn, hevent⟩ := h c' (hlive c' hc') hbefore.1
  refine ⟨e, he, hconn, ?_⟩
  rw [hbefore.2]
  exact hevent

theorem Reported.push (h : Reported s) {e : Event} (hsource : e.source.conn = none) :
    Reported (s.push e) := by
  intro c hc hover
  have hlive : s.Fresh c ∨ s.Registered c := by
    refine hc.imp_left fun hfresh => (fresh_of_push hfresh).resolve_right fun hhandler => ?_
    rw [hhandler] at hsource
    cases hsource
  obtain ⟨e', he', hreport⟩ := h c hlive hover
  exact ⟨e', List.mem_append_left [e] he', hreport⟩

/-- A task that ends sends its report. -/
theorem Reported.emitted (h : Reported s) {c : ConnId} {what : Emit} {k : Conn} {e : Event}
    (hk : (s.conns c).Emits c what k e) : Reported ((s.setConn c k).push e) := by
  intro c' hc' hover
  have hlive : s.Fresh c' ∨ s.Registered c' := hc'.imp_left (fresh_of_emitted hk)
  have hcases : (s.conns c').Over ∧ ((s.setConn c k).conns c').name = (s.conns c').name ∨
      e.source.conn = some c' ∧ e.event = .clientDisconnected ((s.setConn c k).conns c').name := by
    by_cases hc : c' = c
    · subst hc
      rw [conns_setConn_self]
      have hover' : k.Over := by
        have hself : ((s.setConn c' k).conns c').Over := hover
        rw [conns_setConn_self] at hself
        exact hself
      cases hk with
      | announce => exact Or.inl ⟨hover', rfl⟩
      | readerDeliver => exact Or.inl ⟨hover', rfl⟩
      | writerReport => exact Or.inr ⟨rfl, rfl⟩
      | readerReport => exact Or.inr ⟨rfl, rfl⟩
    · have hsame : ((s.setConn c k).conns c').Over := hover
      rw [conns_setConn_of_ne hc] at hsame ⊢
      exact Or.inl ⟨hsame, rfl⟩
  rcases hcases with ⟨hbefore, hname⟩ | ⟨hconn, hevent⟩
  · obtain ⟨e', he', hconn, hevent⟩ := h c' hlive hbefore
    refine ⟨e', List.mem_append_left [e] he', hconn, ?_⟩
    rw [hevent, ← hname]
    rfl
  · exact ⟨e, List.mem_append_right _ (List.mem_singleton_self e), hconn, hevent⟩

variable {env : Env ConnId} {e : Event} {events : List Event}

/-- A report that is handled ends the registration. -/
theorem unregistered_of_served (hwired : Wired s) (hevents : s.events = e :: events) {c : ConnId}
    (hconn : e.source.conn = some c) (hevent : e.event = .clientDisconnected (s.conns c).name) :
    ¬ ((s.served env e events).Fresh c ∨ (s.served env e events).Registered c) := by
  rintro (hfresh | ⟨name, client, hclient, rfl⟩)
  · have hhandler := hwired.first_of_fresh hevents (fresh_of_served hevents hfresh) hconn
    cases hwired.first hevents with
    | newClient => cases hevent
    | input => cases hhandler
    | copied => cases hhandler
    | message => cases hhandler
    | readerGone => cases hhandler
    | writerGone => cases hhandler
  · rw [served_clients, hevent] at hclient
    by_cases hname : name = (s.conns client.tx).name
    · rw [hname] at hclient
      cases (AList.lookup_erase _ _).symm.trans hclient
    · have hbefore : s.server.clients.lookup name = some client :=
        (AList.lookup_erase_ne hname).symm.trans hclient
      exact hname (hwired.announced hbefore).2.symm

theorem Reported.served (h : Reported s) (hwired : Wired s) (hevents : s.events = e :: events) :
    Reported (s.served env e events) := by
  intro c hc hover
  have hstep : s.Step (.serve env) (s.served env e events) := .serve hevents
  have hbefore : (s.conns c).Over := by
    unfold Conn.Over at hover ⊢
    rw [served_reader, served_writer] at hover
    exact hover
  obtain ⟨e', he', hconn, hevent⟩ := h c (live_of_step hwired hstep hc) hbefore
  rw [hevents] at he'
  rcases List.mem_cons.mp he' with rfl | hlater
  · exact absurd hc (unregistered_of_served hwired hevents hconn hevent)
  · refine ⟨e', hlater, hconn, ?_⟩
    rw [(served_identity c).name]
    exact hevent

theorem Reported.step {l : Label} (h : Reported s) (hwired : Wired s) (hstep : s.Step l s') :
    Reported s' := by
  have hlive := fun c => live_of_step (c := c) hwired hstep
  cases hstep with
  | accept =>
      refine h.setConn hlive fun hover => ?_
      rcases hover with hreader | hwriter
      · cases hreader
      · cases hwriter
  | conn hk =>
      refine h.setConn hlive fun hover => ⟨?_, hk.identity.name⟩
      rcases hover with hreader | hwriter
      · exact Or.inl (hk.reader ▸ hreader)
      · refine Or.inr ?_
        cases hk with
        | recv => cases hwriter
        | written => cases hwriter
        | failed => cases hwriter
        | send => exact hwriter
        | batch => exact Conn.takeBatch_writer .. ▸ hwriter
        | stop => exact hwriter
  | stopWriter =>
      refine h.setConn hlive fun hover => ?_
      rcases hover with hreader | hwriter
      · exact ⟨Or.inl hreader, rfl⟩
      · cases hwriter
  | emit hk => exact h.emitted hk
  | capture => exact h.push rfl
  | copied => exact h.push rfl
  | serve hevents => exact h.served hwired hevents

theorem reported_reach (hsized : config.Sized) {G : System → Label → Prop}
    (h : (System.lts config).Reach G s) : Reported s := by
  refine LTS.Reach.invariant_of (fun _ => sound_reach hsized) ?_ ?_ h
  · rintro _ ⟨clipboard, now, rfl⟩ c _ (hreader | hwriter)
    · cases hreader
    · cases hwriter
  · intro s l s' hs hguard hnext
    exact hs.step hguard.2.wired (step_of_next hnext)

/-! ## At rest -/

theorem settled_events (h : LTS.Settled (System.lts config) Internal s) : s.events = [] := by
  rcases hevents : s.events with _ | ⟨e, events⟩
  · rfl
  · have henv : Env ConnId := ⟨0, HashOrder.entries ConnId⟩
    exact absurd (next_serve henv hevents) (h (.serve henv) _ trivial)

/-- An internal step of a connection is possible. -/
theorem not_settled_of_conn {c : ConnId} {k : Conn} (step : ConnStep) (hinternal : step.Internal)
    (hnext : (s.conns c).next step = some k) : ¬ LTS.Settled (System.lts config) Internal s := by
  intro h
  apply h (.conn c step) (s.setConn c k) hinternal
  show ((s.conns c).next step).map (s.setConn c) = _
  rw [hnext, Option.map_some]

theorem not_settled_of_emits {c : ConnId} {k : Conn} {e : Event} (what : Emit)
    (hinternal : s.Internal (.emit c what)) (hk : (s.conns c).Emits c what k e) :
    ¬ LTS.Settled (System.lts config) Internal s := by
  intro h
  apply h (.emit c what) ((s.setConn c k).push e) hinternal
  show (if s.events.length < EVENT_QUEUE then _ else none) = _
  rw [if_pos, Conn.emit_of_emits hk, Option.map_some]
  rw [settled_events h]
  exact Nat.zero_lt_succ _

/-- At rest the tasks of a registered connection all wait, and nothing is on its way. -/
theorem atRest_of_settled (hwired : Wired s) (hreported : Reported s)
    (h : LTS.Settled (System.lts config) Internal s) {name : String} {client : ClientInfo ConnId}
    (hclient : s.server.clients.lookup name = some client) : (s.conns client.tx).AtRest := by
  obtain ⟨hannounced, _⟩ := hwired.announced hclient
  have halive : ¬ (s.conns client.tx).Over := by
    intro hover
    obtain ⟨e, he, _⟩ := hreported client.tx (Or.inr ⟨name, client, hclient, rfl⟩) hover
    rw [settled_events h] at he
    cases he
  have hreader : (s.conns client.tx).reader = .running := by
    cases hr : (s.conns client.tx).reader with
    | running => rfl
    | ended => exact absurd (Or.inl hr) halive
  have hwriter : (s.conns client.tx).writer = .idle := by
    cases hw : (s.conns client.tx).writer with
    | idle => rfl
    | writing msg =>
        have hnext : (s.conns client.tx).next .written
            = some { s.conns client.tx with
                writer := .idle, down := (s.conns client.tx).down ++ [msg] } := by
          simp only [Conn.next, hw]
        exact absurd h (not_settled_of_conn .written trivial hnext)
    | stopping cause => exact absurd h (not_settled_of_emits .writerReport trivial (.writerReport hw))
    | ended => exact absurd (Or.inr hw) halive
  have hqueue : (s.conns client.tx).queue = [] := by
    cases hq : (s.conns client.tx).queue with
    | nil => rfl
    | cons msg queue =>
        have hnext : (s.conns client.tx).next .recv
            = some { s.conns client.tx with writer := .writing msg, queue := queue } := by
          simp only [Conn.next, hwriter, hq]
        exact absurd h (not_settled_of_conn .recv trivial hnext)
  have hup : (s.conns client.tx).up = [] := by
    cases hu : (s.conns client.tx).up with
    | nil => rfl
    | cons msg up =>
        exact absurd h (not_settled_of_emits .readerDeliver trivial
          (.readerDeliver hannounced hreader hu))
  have hrunning : (s.conns client.tx).running = true := by
    cases hr : (s.conns client.tx).running with
    | true => rfl
    | false =>
        exact absurd h (not_settled_of_emits .readerReport ⟨hr, hup⟩
          (.readerReport hannounced hreader))
  have hdown : (s.conns client.tx).down = [] := by
    cases hd : (s.conns client.tx).down with
    | nil => rfl
    | cons msg wire =>
        -- a batch of the first message alone
        have hnext : (s.conns client.tx).next (.batch 0 [] ⟨0, 0, 0⟩ true)
            = some ((s.conns client.tx).takeBatch ⟨(msg, 0), [], ⟨0, 0, 0⟩⟩ wire true) := by
          simp only [Conn.next, hrunning, hd, Batch.take, List.length_nil, Nat.zero_le, if_true]
          rfl
        exact absurd h (not_settled_of_conn (.batch 0 [] ⟨0, 0, 0⟩ true) rfl hnext)
  exact ⟨hqueue, hwriter, hdown, hrunning, hup, hreader⟩

theorem tokens_of_atRest (hevents : s.events = []) {c : ConnId} (h : (s.conns c).AtRest) :
    s.tokens c = (s.conns c).client.state.active.toNat := by
  simp only [tokens, Conn.tokens, Conn.toClient, Conn.inHand, eventsOf, hevents, h.queue, h.writer,
    h.down, h.up, List.filter_nil, List.append_nil, List.countP_nil, Nat.zero_add, Nat.add_zero]

/-- The runs in which control is not lost: the paths deliver what was written, names are distinct, and
control is only handed to a client whose queue has room for the message. -/
def Kept (s : System) (l : Label) : Prop := s.FifoClients l ∧ s.SwitchHasRoom l

theorem told_reach (hsized : config.Sized) (h : (System.lts config).Reach Kept s) : Told s := by
  refine LTS.Reach.invariant_of (K := fun s => Sound config s ∧ Exclusive s) ?_ ?_ ?_ h
  · intro s hs
    exact ⟨sound_reach hsized hs, exclusive_reach hsized (fun _ _ hg => hg.1.1) hs⟩
  · rintro _ ⟨clipboard, now, rfl⟩ name client hactive
    cases hactive
  · rintro s l s' hs ⟨⟨⟨hone, hfifo⟩, hroom⟩, hsound, hexclusive⟩ hnext
    exact hs.step hsound.coherent hsound.wired hexclusive hone hfifo hroom (step_of_next hnext)

/-- The state in which server and clients agree: nothing is in flight, every registered client is
served by all its tasks, a client is active exactly when the server takes it for the active one, and
the devices are grabbed exactly when one of them is. -/
structure Agreed (s : System) : Prop where
  events : s.events = []
  atRest : ∀ name client, s.server.clients.lookup name = some client → (s.conns client.tx).AtRest
  active_iff : ∀ name client, s.server.clients.lookup name = some client →
    ((s.conns client.tx).client.state.active = true ↔ s.server.activeClient = some name)
  grabbed_iff : s.server.grabbed = true ↔ ∃ name client,
    s.server.clients.lookup name = some client ∧ (s.conns client.tx).client.state.active = true

/-- Where no event waits and every registered connection is at rest, the token is where the server
takes it to be. -/
theorem agreed_of_atRest (hsound : Sound config s) (hexclusive : Exclusive s) (htold : Told s)
    (hevents : s.events = []) (hatRest : ∀ name client,
      s.server.clients.lookup name = some client → (s.conns client.tx).AtRest) : s.Agreed := by
  have hwired := hsound.wired
  have hactive : ∀ name client, s.server.clients.lookup name = some client →
      ((s.conns client.tx).client.state.active = true ↔ s.server.activeClient = some name) := by
    intro name client hclient
    have hwaits := hatRest name client hclient
    have htokens := tokens_of_atRest hevents hwaits
    have hlive : (s.conns client.tx).writer ≠ .ended := by
      rw [hwaits.writer]
      nofun
    constructor
    · intro hclientActive
      rw [hclientActive, Bool.toNat_true] at htokens
      have hholder := (hexclusive.single client.tx ⟨name, client, hclient, rfl⟩ hlive).2 htokens
      rw [(hwired.announced hclient).2] at hholder
      exact hholder
    · intro hserverActive
      have hpos := htold name client hserverActive hclient hlive
      rw [htokens] at hpos
      cases ha : (s.conns client.tx).client.state.active with
      | true => rfl
      | false =>
          rw [ha] at hpos
          exact absurd hpos (Nat.lt_irrefl 0)
  refine ⟨hevents, hatRest, hactive, ?_⟩
  rw [hsound.coherent.grabbed_iff]
  constructor
  · intro hsome
    obtain ⟨name, hname⟩ := Option.isSome_iff_exists.mp hsome
    obtain ⟨client, hclient⟩ := Option.isSome_iff_exists.mp
      (AList.lookup_isSome.mpr (hsound.coherent.registered name hname))
    exact ⟨name, client, hclient, (hactive name client hclient).mpr hname⟩
  · rintro ⟨name, client, hclient, hclientActive⟩
    rw [(hactive name client hclient).mp hclientActive]
    rfl

theorem exclusive_of_kept (hsized : config.Sized) (h : (System.lts config).Reach Kept s) :
    Exclusive s := exclusive_reach hsized (fun _ _ hguard => hguard.1.1) h

/-- Whenever the system has come to rest, the server and all its clients agree on who has control. -/
theorem rest_agrees (config : ServerConfig) (hsized : config.Sized) (s : System)
    (h : (System.lts config).Reach Kept s)
    (hrest : LTS.Settled (System.lts config) Internal s) : s.Agreed :=
  agreed_of_atRest (sound_reach hsized h) (exclusive_of_kept hsized h) (told_reach hsized h)
    (settled_events hrest) fun _ _ hclient =>
      atRest_of_settled (sound_reach hsized h).wired (reported_reach hsized h) hrest hclient

/-- A laptop connects, the cursor is pushed over the edge it is at, and it is told. -/
def handedOver : List Label :=
  handOver ++ [.conn 0 .recv, .conn 0 .written, .conn 0 (.batch 1 [] ⟨1, 1, 1⟩ true)]

/-- The laptop has control, and nothing is in flight. -/
def laptopHolds : System :=
  ((System.lts Server.leftConfig).exec (System.new Server.leftConfig ClipboardManager.new 0)
    handedOver).getD (System.new Server.leftConfig ClipboardManager.new 0)

theorem settled_of_quiet (hevents : s.events = [])
    (hconns : ∀ c, (s.conns c).AtRest ∧ (s.conns c).phase = .announced ∧ s.Registered c ∨
      (s.conns c).phase = .absent ∧ (s.conns c).Untouched) :
    LTS.Settled (System.lts config) Internal s := by
  intro l s' hinternal hnext
  have hphase : ∀ c, (s.conns c).phase ≠ .accepted := by
    intro c haccepted
    rcases hconns c with ⟨_, hannounced, _⟩ | ⟨habsent, _⟩
    · cases haccepted.symm.trans hannounced
    · cases haccepted.symm.trans habsent
  have hqueue : ∀ c, (s.conns c).queue = [] :=
    fun c => (hconns c).elim (fun h => h.1.queue) fun h => h.2.queue
  have hwriter : ∀ c, (s.conns c).writer = .idle :=
    fun c => (hconns c).elim (fun h => h.1.writer) fun h => h.2.writer
  have hdown : ∀ c, (s.conns c).down = [] :=
    fun c => (hconns c).elim (fun h => h.1.down) fun h => h.2.down
  cases step_of_next hnext with
  | accept => exact hinternal
  | capture => exact hinternal
  | copied => exact hinternal
  | serve hfirst => cases hevents.symm.trans hfirst
  | @stopWriter c _ _ hdead =>
      have halive : s.senderAlive c = true := by
        refine (senderAlive_iff s c).mpr ?_
        rcases hconns c with ⟨_, _, hregistered⟩ | ⟨habsent, _⟩
        · exact Or.inr hregistered
        · exact Or.inl (Or.inl (by rw [habsent]; nofun))
      rw [hdead] at halive
      cases halive
  | @conn c step k hk =>
      cases hk with
      | recv _ hfirst => cases (hqueue c).symm.trans hfirst
      | written hbusy => cases (hwriter c).symm.trans hbusy
      | batch _ hfirst => cases (hdown c).symm.trans hfirst
      | failed => exact hinternal
      | send => exact hinternal
      | stop => exact hinternal
  | @emit c what k e hk =>
      cases hk with
      | announce haccepted => exact hphase c haccepted
      | writerReport hstopping => cases (hwriter c).symm.trans hstopping
      | readerDeliver hannounced _ hup =>
          rcases hconns c with ⟨hrest, _⟩ | ⟨habsent, _⟩
          · cases hrest.up.symm.trans hup
          · cases hannounced.symm.trans habsent
      | readerReport hannounced _ =>
          rcases hconns c with ⟨hrest, _⟩ | ⟨habsent, _⟩
          · cases hrest.running.symm.trans hinternal.1
          · cases hannounced.symm.trans habsent

theorem switchHasRoom_of_empty (hempty : ∀ c, (s.conns c).queue = []) (env : Env ConnId) :
    s.SwitchHasRoom (.serve env) := by
  intro source ev events name x y client _ _ _ _
  rw [hempty]
  exact Nat.zero_lt_succ _

/-- What holds of every other connection still does after a change of one. -/
theorem update_others {P : Conn → Prop} {conns : Conns} {c : ConnId}
    (h : ∀ c', c' ≠ c → P (conns c')) (k : Conn) (c' : ConnId) (hc : c' ≠ c) :
    P (Function.update conns c k c') := by
  rw [Function.update_of_ne hc]
  exact h c' hc

theorem queue_update {conns : Conns} (h : ∀ c, (conns c).queue = []) (c : ConnId) {k : Conn}
    (hk : k.queue = []) (c' : ConnId) : (Function.update conns c k c').queue = [] := by
  by_cases hc : c' = c
  · rw [hc, Function.update_self]
    exact hk
  · exact update_others (P := fun k => k.queue = []) (fun c' _ => h c') k c' hc

theorem steps_handedOver : LTS.Steps (System.lts Server.leftConfig) Kept
    (System.new Server.leftConfig ClipboardManager.new 0) handedOver laptopHolds := by
  have hnew : ∀ c, ((System.new Server.leftConfig ClipboardManager.new 0).conns c).queue = [] :=
    fun _ => rfl
  refine LTS.steps_of_exec rfl ⟨⟨⟨fun _ h => absurd rfl h, trivial⟩, trivial⟩,
    ⟨⟨trivial, trivial⟩, trivial⟩, ⟨⟨trivial, trivial⟩, ?_⟩, ⟨⟨trivial, trivial⟩, trivial⟩,
    ⟨⟨trivial, trivial⟩, ?_⟩, ⟨⟨trivial, trivial⟩, trivial⟩, ⟨⟨trivial, trivial⟩, trivial⟩,
    ⟨⟨trivial, rfl⟩, trivial⟩, trivial⟩
  · exact switchHasRoom_of_empty (queue_update (queue_update hnew 0 rfl) 0 rfl) _
  · exact switchHasRoom_of_empty (queue_update (queue_update hnew 0 rfl) 0 rfl) _

/-- Nobody else has entered. -/
theorem laptopHolds_others {c : ConnId} (hc : c ≠ 0) : laptopHolds.conns c = Conn.absent := by
  have hnew : ∀ c, c ≠ 0 →
      (System.new Server.leftConfig ClipboardManager.new 0).conns c = Conn.absent :=
    fun _ _ => rfl
  have hother := fun {conns : Conns} => @update_others (fun k => k = Conn.absent) conns 0
  exact hother (hother (hother (hother (hother (hother hnew _) _) _) _) _) _ c hc

theorem rest_agrees_handedOver :
    laptopHolds.server.activeClient = some "laptop" ∧ laptopHolds.Agreed := by
  have hreach : (System.lts Server.leftConfig).Reach Kept laptopHolds :=
    ⟨_, handedOver, ⟨ClipboardManager.new, 0, rfl⟩, steps_handedOver⟩
  refine ⟨rfl, rest_agrees Server.leftConfig ⟨by decide, by decide⟩ laptopHolds hreach ?_⟩
  refine settled_of_quiet rfl fun c => ?_
  by_cases hc : c = 0
  · subst hc
    exact Or.inl ⟨⟨rfl, rfl, rfl, rfl, rfl, rfl⟩, rfl, ⟨"laptop", _, rfl, rfl⟩⟩
  · rw [laptopHolds_others hc]
    exact Or.inr ⟨rfl, rfl, rfl, rfl, rfl⟩

end System

end Bluecross
