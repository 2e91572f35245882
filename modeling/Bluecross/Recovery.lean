/-
# Bluecross.Recovery — control can always be brought back.

From every reachable state there is a way back to local control, with every client connected: let the
tasks work off what is in flight, and then, if a client has control, push the mouse towards the server.
`control_recoverable` builds the run. Its first part is an internal run that keeps room in the queues,
by serving an event only when none of them holds anything; its second part are rounds: a captured
motion goes through the server, the writer and the wire to the client, until the client hands control
back and the server learns of it.

The clock of the run starts at any given reading and does not go back (`Onward`).
-/
import Bluecross.Agreement
import Bluecross.PushingBack

namespace Bluecross

open Lib (LTS)

/-! ## Readings of the clock -/

/-- The readings of the clock in a step. -/
def Label.readings : Label → List Instant
  | .accept _ _ _ now₁ now₂ => [now₁, now₂]
  | .conn _ (.batch first rest exit _) => first :: rest ++ [exit.grace, exit.start, exit.push]
  | .serve env => [env.now]
  | _ => []

/-- All readings of a run are this one. -/
def Steady (t : Instant) (ls : List Label) : Prop := ∀ r ∈ ls.flatMap Label.readings, r = t

/-- The clock goes on from a reading, and never back. -/
def Onward (t : Instant) (ls : List Label) : Prop :=
  (t :: ls.flatMap Label.readings).Pairwise (· ≤ ·)

theorem Steady.onward {t : Instant} {ls : List Label} (h : Steady t ls) : Onward t ls := by
  refine List.pairwise_cons.mpr ⟨fun r hr => Nat.le_of_eq (h r hr).symm, ?_⟩
  refine List.Pairwise.imp_of_mem (R := fun _ _ => True) ?_ (List.pairwise_of_forall fun _ _ => trivial)
  intro r r' hr hr' _
  exact Nat.le_of_eq ((h r hr).trans (h r' hr').symm)

theorem Steady.append {t t' : Instant} {ls ls' : List Label} (h : Steady t ls) (ht : t ≤ t')
    (h' : Onward t' ls') : Onward t (ls ++ ls') := by
  obtain ⟨hfirst, hrest⟩ := List.pairwise_cons.mp h.onward
  obtain ⟨hlater, hgoes⟩ := List.pairwise_cons.mp h'
  unfold Onward
  rw [List.flatMap_append, List.pairwise_cons]
  refine ⟨?_, List.pairwise_append.mpr ⟨hrest, hgoes, ?_⟩⟩
  · intro r hr
    rcases List.mem_append.mp hr with hmem | hmem
    · exact hfirst r hmem
    · exact Nat.le_trans ht (hlater r hmem)
  · intro r hr r' hr'
    rw [h r hr]
    exact Nat.le_trans ht (hlater r' hr')

theorem Onward.of_le {t t' : Instant} {ls : List Label} (h : Onward t' ls) (ht : t ≤ t') :
    Onward t ls := by
  obtain ⟨hlater, hgoes⟩ := List.pairwise_cons.mp h
  exact List.pairwise_cons.mpr ⟨fun r hr => Nat.le_trans ht (hlater r hr), hgoes⟩

/-! ## Where a client sits -/

/-- A client knows its side of the server's screen, and its own screen has a size. -/
structure Client.Seated (c : Client) : Prop where
  position : ∃ p, c.state.position = some p
  width : 0 < c.state.config.screenWidth
  height : 0 < c.state.config.screenHeight

namespace Client

variable {c : Client}

theorem Seated.of_same {c' : Client} (h : c.Seated)
    (hposition : c'.state.position = c.state.position)
    (hconfig : c'.state.config = c.state.config) : c'.Seated :=
  ⟨hposition ▸ h.position, hconfig ▸ h.width, hconfig ▸ h.height⟩

theorem Seated.applyMessage (h : c.Seated) (msg : Message) (now : Instant) :
    (c.applyMessage msg now).1.Seated := by
  cases hswitch : msg.isSwitch with
  | true =>
      rw [c.applyMessage_of_isSwitch hswitch now]
      exact h.of_same rfl rfl
  | false =>
      obtain ⟨hstate, _⟩ := c.applyMessage_other hswitch now
      exact h.of_same (by rw [hstate]) (by rw [hstate])

theorem Seated.applyRest (h : c.Seated) (total : Int32 × Int32) (rest : List (Message × Instant)) :
    (c.applyRest total rest).1.Seated := by
  induction rest generalizing c total with
  | nil => exact h
  | cons m rest ih => exact ih (h.applyMessage m.1 m.2) _

theorem Seated.useMotion (h : c.Seated) (clock : ExitClock) (total : Int32 × Int32) :
    (c.useMotion clock total).1.Seated := by
  unfold Client.useMotion
  split
  · obtain ⟨_, _, hconfig⟩ := checkExitEdge_pointer clock (c.movePointer total.1 total.2).state
      (c.movePointer total.1 total.2).state.mouseX (c.movePointer total.1 total.2).state.mouseY
      total.1 total.2
    obtain ⟨hposition, _⟩ := ClientState.checkExitEdge_frame clock
      (c.movePointer total.1 total.2).state (c.movePointer total.1 total.2).state.mouseX
      (c.movePointer total.1 total.2).state.mouseY total.1 total.2
    simp only
    split <;> exact h.of_same hposition hconfig
  · exact h

theorem Seated.handleBatch (h : c.Seated) (b : Batch) : (c.handleBatch b).1.Seated :=
  ((h.applyMessage b.first.1 b.first.2).applyRest _ b.rest).useMotion b.exit _

/-- Motion alone, to a client that has control. -/
theorem handleBatch_motion (hactive : c.state.active = true) (x y dx dy : Int32) (t : Instant)
    (clock : ExitClock) :
    c.handleBatch ⟨(Message.mouseMove x y dx dy, t), [], clock⟩ = c.useMotion clock (dx, dy) := by
  have hread : c.applyBatch ⟨(Message.mouseMove x y dx dy, t), [], clock⟩ = (c, dx, dy) := by
    unfold applyBatch
    rw [applyMessage_mouseMove c t hactive]
    rfl
  unfold handleBatch
  rw [hread]

end Client

namespace System

variable {s s' : System} {config : ServerConfig}

/-- Clients have screens of a positive size, which is what `resolve_dimensions` lets through. -/
def SizedClients (_ : System) : Label → Prop
  | .accept _ config _ _ _ => 0 < config.screenWidth ∧ 0 < config.screenHeight
  | _ => True

/-- The clients that have connected are seated. -/
def AllSeated (s : System) : Prop := ∀ c, (s.conns c).phase ≠ .absent → (s.conns c).client.Seated

theorem AllSeated.setConn (h : AllSeated s) {c : ConnId} {k : Conn}
    (hk : k.phase ≠ .absent → k.client.Seated) : AllSeated (s.setConn c k) := by
  intro c' hpresent
  by_cases hc : c' = c
  · rw [hc, conns_setConn_self] at hpresent ⊢
    exact hk hpresent
  · rw [conns_setConn_of_ne hc] at hpresent ⊢
    exact h c' hpresent

theorem AllSeated.step {l : Label} (h : AllSeated s) (hguard : s.SizedClients l)
    (hstep : s.Step l s') : AllSeated s' := by
  cases hstep with
  | @accept c config clipboard now₁ now₂ position =>
      refine h.setConn fun _ => ⟨⟨position, ?_⟩, hguard.1, hguard.2⟩
      show (ClientState.acknowledged _ (Message.handshakeAck _ _ _)).position = _
      rw [acknowledged_handshakeAck]
      exact fromStr_asStr position
  | @conn c step k hk =>
      refine h.setConn fun hpresent => ?_
      have hseated := h c (hk.identity.phase ▸ hpresent)
      cases hk with
      | recv => exact hseated
      | written => exact hseated
      | failed => exact hseated
      | send => exact hseated
      | stop => exact hseated.of_same rfl rfl
      | @batch first rest exit sendOk b wire =>
          have hread := hseated.handleBatch b
          unfold Conn.takeBatch
          simp only
          split
          · split
            · exact hread
            · exact hread.of_same rfl rfl
          · exact hread
  | stopWriter => exact h.setConn fun hpresent => h _ hpresent
  | @emit c what k e hk =>
      have hsame : k.client = (s.conns c).client := by cases hk <;> rfl
      refine AllSeated.setConn h fun hpresent => ?_
      rw [hsame]
      apply h
      cases hk with
      | announce hphase =>
          rw [hphase]
          nofun
      | writerReport => exact hpresent
      | readerDeliver => exact hpresent
      | readerReport => exact hpresent
  | capture => exact h
  | copied => exact h
  | @serve env e events hevents =>
      intro c hpresent
      obtain ⟨more, hc, _⟩ := served_queued (s := s) env e events c
      have hclient : ((s.served env e events).conns c).client = (s.conns c).client := by rw [hc]
      show ((s.served env e events).conns c).client.Seated
      rw [hclient]
      exact h c ((served_identity c).phase ▸ hpresent)

/-! ## Working off what is in flight -/

theorem next_conn {c : ConnId} {step : ConnStep} {k : Conn} (h : (s.conns c).next step = some k) :
    s.next (.conn c step) = some (s.setConn c k) := by
  show ((s.conns c).next step).map (s.setConn c) = _
  rw [h, Option.map_some]

/-- No writer of a registered connection, or of one that will be, is about to report a failure. -/
def Unbroken (s : System) : Prop :=
  ∀ c cause, s.Fresh c ∨ s.Registered c → (s.conns c).writer ≠ .stopping cause

theorem Unbroken.step {l : Label} (h : Unbroken s) (hwired : Wired s) (hinternal : s.Internal l)
    (hstep : s.Step l s') : Unbroken s' := by
  intro c cause hc
  have hlive := live_of_step hwired hstep hc
  have hbefore := h c cause hlive
  cases hstep with
  | accept => exact absurd hinternal id
  | capture => exact absurd hinternal id
  | copied => exact absurd hinternal id
  | serve =>
      intro hwriter
      exact hbefore ((served_writer c).symm.trans hwriter)
  | conn hk =>
      refine setConn_forall (P := fun k₁ k₂ => k₁.writer ≠ .stopping cause → k₂.writer ≠ .stopping cause)
        (fun _ => id) ?_ c hbefore
      cases hk with
      | recv => exact fun _ => nofun
      | written => exact fun _ => nofun
      | batch =>
          rw [Conn.takeBatch_writer]
          exact id
      | failed => exact absurd hinternal id
      | send => exact id
      | stop => exact id
  | @stopWriter c' _ _ hdead =>
      by_cases heq : c = c'
      · subst heq
        rw [(senderAlive_iff s c).mpr hlive] at hdead
        cases hdead
      · rw [conns_setConn_of_ne heq]
        exact hbefore
  | emit hk =>
      refine setConn_forall (P := fun k₁ k₂ => k₁.writer ≠ .stopping cause → k₂.writer ≠ .stopping cause)
        (fun _ => id) ?_ c hbefore
      cases hk with
      | announce => exact id
      | writerReport => exact fun _ => nofun
      | readerDeliver => exact id
      | readerReport => exact id

/-- Internal steps fail nothing; whether control is kept is a matter of room. -/
theorem kept_of_internal {l : Label} (h : s.Internal l) (hroom : s.SwitchHasRoom l) : s.Kept l := by
  cases l with
  | accept => exact absurd h id
  | capture => exact absurd h id
  | copied => exact absurd h id
  | conn c step =>
      cases step with
      | recv => exact ⟨⟨trivial, trivial⟩, hroom⟩
      | written => exact ⟨⟨trivial, trivial⟩, hroom⟩
      | batch => exact ⟨⟨trivial, h⟩, hroom⟩
      | failed => exact absurd h id
      | send => exact absurd h id
      | stop => exact absurd h id
  | stopWriter => exact ⟨⟨trivial, trivial⟩, hroom⟩
  | emit => exact ⟨⟨trivial, trivial⟩, hroom⟩
  | serve => exact ⟨⟨trivial, trivial⟩, hroom⟩

/-- Internal steps at one reading of the clock, with room for every switch. -/
def Quietly (t : Instant) (s : System) (l : Label) : Prop :=
  s.Internal l ∧ s.SwitchHasRoom l ∧ ∀ r ∈ l.readings, r = t

/-- Where nothing more can be taken quietly, the writers of registered clients have nothing queued. -/
theorem queue_of_quietly {t : Instant} (hunbroken : Unbroken s)
    (h : LTS.Settled (System.lts config) (Quietly t) s) {name : String}
    {client : ClientInfo ConnId} (hclient : s.server.clients.lookup name = some client)
    (hlive : (s.conns client.tx).writer ≠ .ended) : (s.conns client.tx).queue = [] := by
  cases hq : (s.conns client.tx).queue with
  | nil => rfl
  | cons msg queue =>
      exfalso
      cases hw : (s.conns client.tx).writer with
      | ended => exact hlive hw
      | stopping cause => exact hunbroken client.tx cause (Or.inr ⟨name, client, hclient, rfl⟩) hw
      | idle =>
          have hnext : (s.conns client.tx).next .recv
              = some { s.conns client.tx with writer := .writing msg, queue := queue } := by
            simp only [Conn.next, hw, hq]
          exact h (.conn client.tx .recv) _ ⟨trivial, trivial, List.forall_mem_nil _⟩ (next_conn hnext)
      | writing first =>
          have hnext : (s.conns client.tx).next .written = some { s.conns client.tx with
              writer := .idle, down := (s.conns client.tx).down ++ [first] } := by
            simp only [Conn.next, hw]
          exact h (.conn client.tx .written) _ ⟨trivial, trivial, List.forall_mem_nil _⟩ (next_conn hnext)

/-- A state that cannot go on quietly is at rest: where a queue holds something, its writer can go on,
and where none does, an event can be served. -/
theorem settled_of_quietly {t : Instant} (hunbroken : Unbroken s)
    (h : LTS.Settled (System.lts config) (Quietly t) s) :
    LTS.Settled (System.lts config) Internal s := by
  have hevents : s.events = [] := by
    cases hev : s.events with
    | nil => rfl
    | cons e events =>
        refine absurd (next_serve ⟨t, HashOrder.entries ConnId⟩ hev) (h (.serve _) _ ⟨trivial, ?_, ?_⟩)
        · intro source ev events name x y client _ _ hclient hlive
          rw [queue_of_quietly hunbroken h hclient hlive]
          exact Nat.zero_lt_succ _
        · intro r hr
          exact List.mem_singleton.mp hr
  intro l s' hinternal hnext
  cases step_of_next hnext with
  | accept => exact hinternal
  | capture => exact hinternal
  | copied => exact hinternal
  | serve hfirst => cases hevents.symm.trans hfirst
  | @stopWriter c => exact h (.stopWriter c) _ ⟨trivial, trivial, List.forall_mem_nil _⟩ hnext
  | @emit c what => exact h (.emit c what) _ ⟨hinternal, trivial, List.forall_mem_nil _⟩ hnext
  | @conn c step k hk =>
      cases hk with
      | recv => exact h (.conn c .recv) _ ⟨trivial, trivial, List.forall_mem_nil _⟩ hnext
      | written => exact h (.conn c .written) _ ⟨trivial, trivial, List.forall_mem_nil _⟩ hnext
      | failed => exact hinternal
      | send => exact hinternal
      | stop => exact hinternal
      | @batch first rest exit sendOk b wire hrunning hdown =>
          -- the first message alone, at the reading that is allowed
          cases hd : (s.conns c).down with
          | nil => cases hd.symm.trans hdown
          | cons msg down =>
              have hfirst : (s.conns c).next (.batch t [] (.steady t) true)
                  = some ((s.conns c).takeBatch ⟨(msg, t), [], .steady t⟩ down true) := by
                simp only [Conn.next, hrunning, hd, Batch.take, List.length_nil, Nat.zero_le, if_true]
                rfl
              refine h (.conn c (.batch t [] (.steady t) true)) _ ⟨rfl, trivial, ?_⟩ (next_conn hfirst)
              simp [Label.readings, ExitClock.steady]

theorem steady_of_steps {G : System → Label → Prop} {t : Instant}
    (hsteady : ∀ s l, G s l → ∀ r ∈ l.readings, r = t) {ls : List Label}
    (h : LTS.Steps (System.lts config) G s ls s') : Steady t ls := by
  induction h with
  | nil => exact nofun
  | cons hguard _ _ ih =>
      intro r hr
      rw [List.flatMap_cons] at hr
      exact (List.mem_append.mp hr).elim (hsteady _ _ hguard r) (ih r)

/-- What is in flight can be worked off, and then everybody agrees. -/
theorem exists_agreed (hsized : config.Sized) (h : (System.lts config).Reach Kept s)
    (hunbroken : Unbroken s) (t : Instant) :
    ∃ ls s', LTS.Steps (System.lts config) (fun s l => s.Kept l ∧ s.Internal l) s ls s' ∧
      Steady t ls ∧ s'.Agreed := by
  obtain ⟨cs, hwithin⟩ := within_reach h
  have hlowers := (internal_lowers config hsized cs).strengthen (H := Quietly t) fun _ _ hq => hq.1
  obtain ⟨ls, s', hsteps, hsettled⟩ := hlowers.settles ⟨sound_reach hsized h, hwithin⟩
  have hkept := hsteps.weaken (H := fun s l => s.Kept l ∧ s.Internal l)
    fun _ _ hq => ⟨kept_of_internal hq.1 hq.2.1, hq.1⟩
  have hunbroken' : Sound config s' ∧ Unbroken s' := by
    refine hkept.invariant (I := fun s => Sound config s ∧ Unbroken s) ?_
      ⟨sound_reach hsized h, hunbroken⟩
    rintro s l s' ⟨hsound, hbefore⟩ hguard hnext
    have hstep := step_of_next hnext
    exact ⟨hsound.step hsized hstep, hbefore.step hsound.wired hguard.2 hstep⟩
  have hreach : (System.lts config).Reach Kept s' :=
    h.steps (hkept.weaken fun _ _ hguard => hguard.1)
  have hrest := settled_of_quietly hunbroken'.2 hsettled
  exact ⟨ls, s', hkept, steady_of_steps (fun _ _ hq => hq.2.2) hsteps,
    agreed_of_atRest hunbroken'.1 (exclusive_of_kept hsized hreach) (told_reach hsized hreach)
      (settled_events hrest) fun _ _ hclient =>
        atRest_of_settled hunbroken'.1.wired (reported_reach hsized hreach) hrest hclient⟩

/-! ## A round -/

/-- A client has control and everything is at rest, at this time. -/
structure Attending (config : ServerConfig) (name : String) (client : ClientInfo ConnId)
    (p : ScreenPosition) (t : Instant) (s : System) : Prop where
  sound : Sound config s
  events : s.events = []
  active : s.server.activeClient = some name
  registered : s.server.clients.lookup name = some client
  atRest : ∀ name' client', s.server.clients.lookup name' = some client' →
    (s.conns client'.tx).AtRest
  holding : (s.conns client.tx).client.Holding p t
  flushed : s.server.lastFlush + Duration.fromMillis 2 ≤ t

/-- The motion that the client gets to see: what is pending, and what is captured. -/
def motion (s : System) (d : Int32 × Int32) : Int32 × Int32 :=
  (s.server.pendingDx + d.1, s.server.pendingDy + d.2)

/-- A captured motion on its way through the server to the client that has control. -/
def round (c : ConnId) (d : Int32 × Int32) (t : Instant) : List Label :=
  [.capture (.mouseMove d.1 d.2), .serve ⟨t, HashOrder.entries ConnId⟩, .conn c .recv,
    .conn c .written, .conn c (.batch t [] (.steady t) true)]

/-- The steps that a user who pushes the mouse brings about, and no failure. -/
def Pushed (s : System) (l : Label) : Prop :=
  s.Kept l ∧ (s.Internal l ∨ ∃ dx dy, l = .capture (.mouseMove dx dy))

/-- What a round leaves: the motion has been applied, and nothing else has changed. -/
structure RoundDone (s : System) (client : ClientInfo ConnId) (d : Int32 × Int32) (t : Instant)
    (s' : System) : Prop where
  events : s'.events = []
  activeClient : s'.server.activeClient = s.server.activeClient
  clients : s'.server.clients = s.server.clients
  pending : s'.server.pendingDx = 0 ∧ s'.server.pendingDy = 0
  lastFlush : s'.server.lastFlush = t
  others : ∀ c, c ≠ client.tx → s'.conns c = s.conns c
  conn : s'.conns client.tx = { s.conns client.tx with
    client := ((s.conns client.tx).client.useMotion (.steady t) (s.motion d)).1
    up := if ((s.conns client.tx).client.useMotion (.steady t) (s.motion d)).2
      then [Message.switchToServer] else [] }

variable {name : String} {client : ClientInfo ConnId} {p : ScreenPosition} {t : Instant}

theorem steady_round (c : ConnId) (d : Int32 × Int32) (t : Instant) : Steady t (round c d t) := by
  intro r hr
  simpa [round, Label.readings, ExitClock.steady] using hr

/-- The server flushes captured motion to the client that has control. -/
theorem Attending.handle (h : Attending config name client p t s) (d : Int32 × Int32) :
    s.server.handle ⟨t, HashOrder.entries ConnId⟩ s.conns (.input (.mouseMove d.1 d.2)) =
      ({ (s.server.moveCursor d.1 d.2).setPending 0 0 with lastFlush := t },
        Function.update s.conns client.tx { s.conns client.tx with
          queue := [Message.mouseMove (s.server.moveCursor d.1 d.2).mouseX
            (s.server.moveCursor d.1 d.2).mouseY (s.motion d).1 (s.motion d).2] }) := by
  have hk := h.atRest name client h.registered
  have hactive : (s.server.moveCursor d.1 d.2).activeClient = some name := h.active
  have hdue : Instant.durationSince t (s.server.moveCursor d.1 d.2).lastFlush
      ≥ Duration.fromMillis 2 := Nat.le_sub_of_add_le' h.flushed
  have hlookup : ((s.server.moveCursor d.1 d.2).setPending
      ((s.server.moveCursor d.1 d.2).pendingDx + d.1)
      ((s.server.moveCursor d.1 d.2).pendingDy + d.2)).clients.lookup name = some client :=
    h.registered
  have hlive : (s.conns client.tx).writer ≠ .ended := by
    rw [hk.writer]
    nofun
  have hroom : (s.conns client.tx).queue.length < CLIENT_QUEUE := by
    rw [hk.queue]
    exact Nat.zero_lt_succ _
  show s.server.handleInput _ s.conns (.mouseMove d.1 d.2) = _
  unfold Server.handleInput
  simp only [hactive]
  rw [Server.forwardMotion_eq]
  simp only
  rw [if_pos hdue, Server.sendTo_registered hlookup, trySend_room hlive hroom, hk.queue]
  rfl

/-- Internal steps of one connection, one after the other. -/
theorem steps_conn {c : ConnId} {steps : List ConnStep} {k : Conn}
    (hinternal : ∀ step ∈ steps, step.Internal)
    (hrun : steps.foldlM Conn.next (s.conns c) = some k) :
    LTS.Steps (System.lts config) Pushed s (steps.map (.conn c)) (s.setConn c k) := by
  induction steps generalizing s with
  | nil =>
      have hsame : s.setConn c k = s := by
        rw [← Option.some.inj hrun, setConn, Function.update_eq_self]
      rw [hsame]
      exact .nil s
  | cons step steps ih =>
      obtain ⟨k', hk', hrest⟩ := Option.bind_eq_some_iff.mp hrun
      have hstep : step.Internal := hinternal step (List.mem_cons_self ..)
      have hlater := ih (s := s.setConn c k')
        (fun step' hmem => hinternal step' (List.mem_cons_of_mem step hmem))
        (by rw [conns_setConn_self]; exact hrest)
      have hsame : (s.setConn c k').setConn c k = s.setConn c k := by
        simp only [setConn, Function.update_idem]
      rw [hsame] at hlater
      exact .cons ⟨kept_of_internal hstep trivial, Or.inl hstep⟩ (next_conn hk') hlater

/-- A message on its way to a client that is at rest: it is written, and taken as a batch. -/
theorem deliver_next {k : Conn} (h : k.AtRest) (msg : Message) (t : Instant) :
    ([.recv, .written, .batch t [] (.steady t) true] : List ConnStep).foldlM Conn.next
        { k with queue := [msg] }
      = some (k.takeBatch ⟨(msg, t), [], .steady t⟩ [] true) := by
  obtain ⟨phase, name, position, width, height, queue, writer, down, client, running, up, reader⟩ := k
  obtain ⟨rfl, rfl, rfl, rfl, rfl, rfl⟩ := h
  rfl

/-- A batch of the motion alone. -/
theorem takeBatch_motion {k : Conn} (h : k.AtRest) (hactive : k.client.state.active = true)
    (x y dx dy : Int32) (t : Instant) :
    k.takeBatch ⟨(Message.mouseMove x y dx dy, t), [], .steady t⟩ [] true =
      { k with
        client := (k.client.useMotion (.steady t) (dx, dy)).1
        up := if (k.client.useMotion (.steady t) (dx, dy)).2 then [Message.switchToServer]
          else [] } := by
  have hread := Client.handleBatch_motion hactive x y dx dy t (.steady t)
  cases hback : (k.client.useMotion (.steady t) (dx, dy)).2 with
  | true =>
      rw [Conn.takeBatch_back (by rw [hread]; exact hback), hread, h.up, List.nil_append, if_pos rfl,
        h.down]
  | false =>
      rw [Conn.takeBatch_kept (by rw [hread]; exact hback), hread, if_neg nofun, h.down, h.up]

theorem Attending.round (h : Attending config name client p t s) (d : Int32 × Int32) :
    ∃ s', LTS.Steps (System.lts config) Pushed s (round client.tx d t) s' ∧
      RoundDone s client d t s' := by
  let env : Env ConnId := ⟨t, HashOrder.entries ConnId⟩
  let e : Event := ⟨.capture, .input (.mouseMove d.1 d.2)⟩
  let msg := Message.mouseMove (s.server.moveCursor d.1 d.2).mouseX
    (s.server.moveCursor d.1 d.2).mouseY (s.motion d).1 (s.motion d).2
  have hk : (s.conns client.tx).AtRest := h.atRest name client h.registered
  have hcapture : s.next (.capture (.mouseMove d.1 d.2)) = some (s.push e) := by
    show (if s.events.length < EVENT_QUEUE then _ else none) = _
    rw [if_pos]
    rw [h.events]
    exact Nat.zero_lt_succ _
  have hfirst : (s.push e).events = [e] := by
    rw [System.push, h.events]
    rfl
  have hhandle := h.handle d
  let s₂ := (s.push e).served env e []
  have hserver : s₂.server
      = { (s.server.moveCursor d.1 d.2).setPending 0 0 with lastFlush := t } :=
    congrArg Prod.fst hhandle
  have hconns : s₂.conns
      = Function.update s.conns client.tx { s.conns client.tx with queue := [msg] } :=
    congrArg Prod.snd hhandle
  have hdeliver := deliver_next hk msg t
  have hself : s₂.conns client.tx = { s.conns client.tx with queue := [msg] } := by
    rw [hconns, Function.update_self]
  rw [← hself] at hdeliver
  have hinternal : ∀ step ∈ ([.recv, .written, .batch t [] (.steady t) true] : List ConnStep),
      step.Internal := by
    simp [ConnStep.Internal]
  have hdelivered : LTS.Steps (System.lts config) Pushed s₂ _ _ := steps_conn hinternal hdeliver
  rw [takeBatch_motion hk h.holding.active] at hdelivered
  -- nobody is switched to while a client is active
  have hroom : (s.push e).SwitchHasRoom (.serve env) := by
    intro source ev events name' x y client' _ htarget
    have hnone : s.server.switchTarget env ev = none := by
      unfold Server.switchTarget
      rw [h.active]
    rw [show (s.push e).server = s.server from rfl, hnone] at htarget
    cases htarget
  have hserve : Pushed (s.push e) (.serve env) := ⟨kept_of_internal trivial hroom, Or.inl trivial⟩
  refine ⟨_, .cons ⟨⟨⟨trivial, trivial⟩, trivial⟩, Or.inr ⟨d.1, d.2, rfl⟩⟩ hcapture
    (.cons hserve (next_serve env hfirst) hdelivered), ?_⟩
  refine ⟨rfl, ?_, ?_, ?_, ?_, ?_, ?_⟩
  · show s₂.server.activeClient = _
    rw [hserver]
    rfl
  · show s₂.server.clients = _
    rw [hserver]
    rfl
  · show s₂.server.pendingDx = 0 ∧ s₂.server.pendingDy = 0
    rw [hserver]
    exact ⟨rfl, rfl⟩
  · show s₂.server.lastFlush = t
    rw [hserver]
  · intro c hc
    rw [conns_setConn_of_ne hc]
    show s₂.conns c = _
    rw [hconns, Function.update_of_ne hc]
  · rw [conns_setConn_self]

/-- A run in which nothing fails keeps what is known of the state. -/
theorem Sound.pushed (h : Sound config s) (hsized : config.Sized) {ls : List Label}
    (hsteps : LTS.Steps (System.lts config) Pushed s ls s') : Sound config s' :=
  hsteps.invariant (fun _ _ _ hs _ hnext => hs.step hsized (step_of_next hnext)) h

/-- Control is local, and everything is at rest. -/
structure Back (s : System) : Prop where
  events : s.events = []
  idle : s.server.activeClient = none
  atRest : ∀ name client, s.server.clients.lookup name = some client → (s.conns client.tx).AtRest

/-- A round that does not hand control back leaves it with the client. -/
theorem Attending.stays (h : Attending config name client p t s) {d : Int32 × Int32}
    (hdone : RoundDone s client d t s') (hsound : Sound config s')
    (hstays : ((s.conns client.tx).client.useMotion (.steady t) (s.motion d)).2 = false) :
    (s'.conns client.tx).client.Holding p t ∧
      ∀ t', t + Duration.fromMillis 2 ≤ t' → Attending config name client p t' s' := by
  have hholding : (s'.conns client.tx).client.Holding p t := by
    rw [hdone.conn]
    exact (h.holding.useMotion (s.motion d) hstays).1
  refine ⟨hholding, fun t' ht => ?_⟩
  refine ⟨hsound, hdone.events, hdone.activeClient.trans h.active, ?_, ?_,
    hholding.mono (Nat.le_trans (Nat.le_add_right t _) ht), ?_⟩
  · rw [hdone.clients]
    exact h.registered
  · intro name' client' hclient'
    rw [hdone.clients] at hclient'
    have hrest := h.atRest name' client' hclient'
    by_cases hc : client'.tx = client.tx
    · rw [hc] at hrest ⊢
      rw [hdone.conn, hstays, if_neg nofun]
      exact ⟨hrest.queue, hrest.writer, hrest.down, hrest.running, rfl, hrest.reader⟩
    · rw [hdone.others client'.tx hc]
      exact hrest
  · rw [hdone.lastFlush]
    exact ht

/-- A round that hands control back: the server reads it and takes the control back. -/
theorem Attending.comesBack (h : Attending config name client p t s) {d : Int32 × Int32}
    (hdone : RoundDone s client d t s')
    (hback : ((s.conns client.tx).client.useMotion (.steady t) (s.motion d)).2 = true) :
    ∃ ls u, LTS.Steps (System.lts config) Pushed s' ls u ∧ Steady t ls ∧ u.Back := by
  let env : Env ConnId := ⟨t, HashOrder.entries ConnId⟩
  let c := client.tx
  let e : Event := ⟨.reader c, .clientMessage (s'.conns c).name Message.switchToServer⟩
  have hk := h.atRest name client h.registered
  obtain ⟨hannounced, hname⟩ := h.sound.wired.announced h.registered
  have hconn := hdone.conn
  rw [hback, if_pos rfl] at hconn
  have hsameName : (s'.conns c).name = name := by
    rw [hconn]
    exact hname
  have hemits : (s'.conns c).Emits c .readerDeliver { s'.conns c with up := [] } e := by
    refine .readerDeliver ?_ ?_ ?_
    · rw [hconn]
      exact hannounced
    · rw [hconn]
      exact hk.reader
    · rw [hconn]
  let s₁ := (s'.setConn c { s'.conns c with up := [] }).push e
  have hdeliver : s'.next (.emit c .readerDeliver) = some s₁ := by
    show (if s'.events.length < EVENT_QUEUE then _ else none) = _
    rw [if_pos, Conn.emit_of_emits hemits, Option.map_some]
    rw [hdone.events]
    exact Nat.zero_lt_succ _
  have hfirst : s₁.events = [e] := by
    show s'.events ++ [e] = [e]
    rw [hdone.events, List.nil_append]
  have hactive : s'.server.activeClient = some name := hdone.activeClient.trans h.active
  -- the hand-back is from the active client
  have hhandle : s₁.server.handle env s₁.conns e.event = (s'.server.deactivate name, s₁.conns) := by
    show s'.server.handleClientMessage env s₁.conns (s'.conns c).name Message.switchToServer = _
    rw [hsameName]
    unfold Server.handleClientMessage
    simp only [Message.switchToServer, hactive, if_true]
  have hroom : s₁.SwitchHasRoom (.serve env) := by
    intro source ev events name' x y client' hev
    rw [hfirst] at hev
    have hevent : ServerEvent.clientMessage (s'.conns c).name Message.switchToServer = .input ev :=
      congrArg Event.event (List.cons.inj hev).1
    cases hevent
  have hserver : (s₁.served env e []).server = s'.server.deactivate name := congrArg Prod.fst hhandle
  have hconns : (s₁.served env e []).conns = s₁.conns := congrArg Prod.snd hhandle
  refine ⟨[.emit c .readerDeliver, .serve env], s₁.served env e [],
    .cons ⟨kept_of_internal trivial trivial, Or.inl trivial⟩ hdeliver
      (.single ⟨kept_of_internal trivial hroom, Or.inl trivial⟩ (next_serve env hfirst)), ?_,
    rfl, ?_, ?_⟩
  · intro r hr
    exact List.mem_singleton.mp hr
  · rw [hserver, Server.deactivate_activeClient, if_pos hactive]
  · intro name' client' hclient'
    rw [hserver, Server.deactivate_clients, hdone.clients] at hclient'
    have hrest := h.atRest name' client' hclient'
    rw [hconns]
    show ((s'.setConn c _).conns client'.tx).AtRest
    by_cases hc : client'.tx = c
    · rw [hc, conns_setConn_self, hconn]
      exact ⟨hk.queue, hk.writer, hk.down, hk.running, rfl, hk.reader⟩
    · rw [conns_setConn_of_ne hc, hdone.others client'.tx hc]
      exact hrest

/-- A push: control comes back, or the client has applied the motion. -/
theorem Attending.push (h : Attending config name client p t s) (hsized : config.Sized)
    (d : Int32 × Int32) :
    (∃ ls u, LTS.Steps (System.lts config) Pushed s ls u ∧ Steady t ls ∧ u.Back) ∨
    ∃ ls s', LTS.Steps (System.lts config) Pushed s ls s' ∧ Steady t ls ∧
      (∀ t', t + Duration.fromMillis 2 ≤ t' → Attending config name client p t' s') ∧
      (s'.conns client.tx).client.Holding p t ∧
      ((s.conns client.tx).client.useMotion (.steady t) (s.motion d)).2 = false ∧
      (s'.conns client.tx).client
        = ((s.conns client.tx).client.useMotion (.steady t) (s.motion d)).1 ∧
      s'.server.pendingDx = 0 ∧ s'.server.pendingDy = 0 := by
  obtain ⟨s', hsteps, hdone⟩ := h.round d
  have hsteady := steady_round client.tx d t
  cases hback : ((s.conns client.tx).client.useMotion (.steady t) (s.motion d)).2 with
  | true =>
      obtain ⟨ls, u, hmore, hlast, hu⟩ := h.comesBack hdone hback
      refine Or.inl ⟨_, u, hsteps.append hmore, ?_, hu⟩
      intro r hr
      rw [List.flatMap_append] at hr
      exact (List.mem_append.mp hr).elim (hsteady r) (hlast r)
  | false =>
      obtain ⟨hholding, hlater⟩ := h.stays hdone (h.sound.pushed hsized hsteps) hback
      refine Or.inr ⟨_, s', hsteps, hsteady, hlater, hholding, rfl, ?_, hdone.pending⟩
      rw [hdone.conn]

theorem motion_of_flushed (hx : s.server.pendingDx = 0) (hy : s.server.pendingDy = 0)
    (d : Int32 × Int32) : s.motion d = d := by
  unfold motion
  rw [hx, hy, zero_add, zero_add]

/-- Whoever pushes towards the server gets control back. -/
theorem Attending.pushedBack (h : Attending config name client p t s) (hsized : config.Sized) :
    ∃ ls u, LTS.Steps (System.lts config) Pushed s ls u ∧ Onward t ls ∧ u.Back := by
  have hone : (0 : Int32) < 1 := by decide
  have hlater : t ≤ t + Duration.fromMillis 2 := Nat.le_add_right t _
  -- what was pending goes first
  rcases h.push hsized (p.outward 1) with ⟨ls, u, hsteps, hsteady, hu⟩ | ⟨ls₁, s₁, hsteps₁, hsteady₁,
    hnext₁, _, _, _, hx₁, hy₁⟩
  · exact ⟨ls, u, hsteps, hsteady.onward, hu⟩
  -- the second motion puts the pointer inside the screen
  have h₁ := hnext₁ _ (Nat.le_refl _)
  rcases h₁.push hsized (p.outward 1) with ⟨ls, u, hsteps, hsteady, hu⟩ | ⟨ls₂, s₂, hsteps₂,
    hsteady₂, hnext₂, hholding₂, hstays₂, hclient₂, hx₂, hy₂⟩
  · exact ⟨_, u, hsteps₁.append hsteps, hsteady₁.append hlater hsteady.onward, hu⟩
  have hinside : (s₂.conns client.tx).client.PointerInside := by
    rw [motion_of_flushed hx₁ hy₁] at hstays₂ hclient₂
    rw [hclient₂]
    exact (h₁.holding.useMotion (p.outward 1) hstays₂).2 (outward_ne_zero hone p)
  -- the third brings it to the edge
  have h₂ := hnext₂ _ (Nat.le_refl _)
  obtain ⟨k, hk, hat⟩ := Client.exists_push h₂.holding.width h₂.holding.height hinside p
  rcases h₂.push hsized (p.outward k) with ⟨ls, u, hsteps, hsteady, hu⟩ | ⟨ls₃, s₃, hsteps₃,
    hsteady₃, hnext₃, hholding₃, hstays₃, hclient₃, hx₃, hy₃⟩
  · exact ⟨_, u, hsteps₁.append (hsteps₂.append hsteps), hsteady₁.append hlater
      (hsteady₂.append (Nat.le_add_right _ _) hsteady.onward), hu⟩
  have htimed : (s₃.conns client.tx).client.Timed p := by
    rw [motion_of_flushed hx₂ hy₂] at hstays₃ hclient₃
    rw [hclient₃]
    exact h₂.holding.timed hk hat hstays₃
  -- and the fourth comes when the timer has run out
  let last := t + Duration.fromMillis 2 + Duration.fromMillis 2 + PUSH
  have hwait : t + Duration.fromMillis 2 + Duration.fromMillis 2 ≤ last := Nat.le_add_right _ _
  have h₃ := hnext₃ last (Nat.add_le_add_left (by decide) _)
  rcases h₃.push hsized (p.outward 1) with ⟨ls, u, hsteps, hsteady, hu⟩ | ⟨_, _, _, _, _, _, hstays₄, _⟩
  · exact ⟨_, u, hsteps₁.append (hsteps₂.append (hsteps₃.append hsteps)), hsteady₁.append hlater
      (hsteady₂.append (Nat.le_add_right _ _) (hsteady₃.append hwait hsteady.onward)), hu⟩
  · rw [motion_of_flushed hx₃ hy₃,
      h₃.holding.exits htimed (Nat.add_le_add_right hholding₃.started PUSH)] at hstays₄
    cases hstays₄

/-! ## From every state -/

theorem reach_weaken {G H : System → Label → Prop} (h : (System.lts config).Reach G s)
    (hle : ∀ s l, G s l → H s l) : (System.lts config).Reach H s := by
  obtain ⟨s₀, ls, hinit, hsteps⟩ := h
  exact ⟨s₀, ls, hinit, hsteps.weaken hle⟩

theorem sizedClients_of_internal {l : Label} (h : s.Internal l) : s.SizedClients l := by
  cases l with
  | accept => exact absurd h id
  | _ => trivial

/-- A reading late enough for a flush, for the end of the grace period and for a push to begin. -/
def latest (now lastFlush switchTime edgePushStart : Nat) : Nat :=
  now + lastFlush + switchTime + edgePushStart + GRACE

theorem latest_bounds (now lastFlush switchTime edgePushStart : Nat) :
    now ≤ latest now lastFlush switchTime edgePushStart ∧
      lastFlush + Duration.fromMillis 2 ≤ latest now lastFlush switchTime edgePushStart ∧
      switchTime + GRACE ≤ latest now lastFlush switchTime edgePushStart ∧
      edgePushStart ≤ latest now lastFlush switchTime edgePushStart := by
  have hgrace : @LE.le Nat _ (Duration.fromMillis 2) GRACE := by decide
  unfold latest
  omega

/-- From every state that is reached while control is kept there is a way back: a run without a failure
and with no input but motion, on a clock that goes on from any reading, after which everybody agrees
that control is local. -/
theorem control_recoverable (config : ServerConfig) (hsized : config.Sized) (s : System)
    (h : (System.lts config).Reach (fun s l => s.Kept l ∧ s.SizedClients l) s)
    (hunbroken : s.Unbroken) (now : Instant) :
    ∃ ls t, LTS.Steps (System.lts config) Pushed s ls t ∧ Onward now ls ∧ t.Agreed ∧
      t.server.activeClient = none := by
  have hkept := reach_weaken h fun _ _ hguard => hguard.1
  have hseated : AllSeated s := by
    refine h.invariant ?_ fun s l s' hs hguard hnext => hs.step hguard.2 (step_of_next hnext)
    rintro _ ⟨clipboard, now, rfl⟩ c hpresent
    exact absurd rfl hpresent
  obtain ⟨ls₀, s₀, hsteps₀, hsteady₀, hagreed₀⟩ := exists_agreed hsized hkept hunbroken now
  have hpushed₀ := hsteps₀.weaken (H := Pushed) fun _ _ hguard => ⟨hguard.1, Or.inl hguard.2⟩
  have hsound₀ := (sound_reach hsized h).pushed hsized hpushed₀
  have hseated₀ : AllSeated s₀ := by
    refine hsteps₀.invariant ?_ hseated
    intro s l s' hs hguard hnext
    exact hs.step (sizedClients_of_internal hguard.2) (step_of_next hnext)
  cases hactive : s₀.server.activeClient with
  | none => exact ⟨ls₀, s₀, hpushed₀, hsteady₀.onward, hagreed₀, hactive⟩
  | some name =>
      obtain ⟨client, hclient⟩ := Option.isSome_iff_exists.mp
        (AList.lookup_isSome.mpr (hsound₀.coherent.registered name hactive))
      have hpresent : (s₀.conns client.tx).phase ≠ .absent := by
        rw [(hsound₀.wired.announced hclient).1]
        nofun
      obtain ⟨p, hp⟩ := (hseated₀ client.tx hpresent).position
      let state := (s₀.conns client.tx).client.state
      have hbounds := latest_bounds now s₀.server.lastFlush state.switchTime state.edgePushStart
      have hattending : Attending config name client p
          (latest now s₀.server.lastFlush state.switchTime state.edgePushStart) s₀ :=
        ⟨hsound₀, hagreed₀.events, hactive, hclient, hagreed₀.atRest,
          ⟨(hagreed₀.active_iff name client hclient).mpr hactive, hp, (hseated₀ client.tx hpresent).width,
            (hseated₀ client.tx hpresent).height, hbounds.2.2.1, hbounds.2.2.2⟩, hbounds.2.1⟩
      obtain ⟨ls, u, hsteps, honward, hback⟩ := hattending.pushedBack hsized
      have hall := hpushed₀.append hsteps
      have hreach := hkept.steps (hall.weaken fun _ _ hguard => hguard.1)
      exact ⟨_, u, hall, hsteady₀.append hbounds.1 honward,
        agreed_of_atRest (hsound₀.pushed hsized hsteps) (exclusive_of_kept hsized hreach)
          (told_reach hsized hreach) hback.events hback.atRest, hback.idle⟩

/-- A laptop has control, and gets it taken back. -/
theorem control_recoverable_handedOver :
    laptopHolds.server.activeClient = some "laptop" ∧
      ∃ ls t, LTS.Steps (System.lts Server.leftConfig) Pushed laptopHolds ls t ∧ Onward 1 ls ∧
        t.Agreed ∧ t.server.activeClient = none := by
  refine ⟨rfl, control_recoverable Server.leftConfig ⟨by decide, by decide⟩ laptopHolds ?_ ?_ 1⟩
  · have hsized : LTS.Steps (System.lts Server.leftConfig) SizedClients
        (System.new Server.leftConfig ClipboardManager.new 0) handedOver laptopHolds :=
      LTS.steps_of_exec rfl ⟨⟨by decide, by decide⟩, trivial, trivial, trivial, trivial, trivial,
        trivial, trivial, trivial⟩
    exact ⟨_, handedOver, ⟨ClipboardManager.new, 0, rfl⟩, steps_handedOver.and hsized⟩
  · intro c cause _
    by_cases hc : c = 0
    · rw [hc]
      nofun
    · rw [laptopHolds_others hc]
      nofun

end System

end Bluecross
