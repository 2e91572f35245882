/-
# Bluecross.ControlLoss — when the active client has been told that it is.

The token of `Holder` can be missing: the server remembers an active client, and neither the client
nor a message on its way knows. `control_not_lost` excludes that for paths that are FIFO channels and
deliver what was written (`Fifo`), in every run in which control is only ever handed to a client whose
queue has room (`SwitchHasRoom`).

Without that room the law fails: `send_to` reports a full queue as a success, so the switch is not
taken back although its message was dropped, and the server waits for a client that was never told.
`control_lost` is such a run.
-/
import Bluecross.Holder

namespace Bluecross

open Lib (LTS)

namespace System

variable {s : System}

/-! ## The conditions, and the law -/

/-- The paths deliver what was written: no write loses a control message. -/
def Fifo (s : System) : Label → Prop
  | .conn c .failed => (s.conns c).inHand.countP Message.isSwitch = 0
  | .conn _ (.batch _ _ _ sendOk) => sendOk = true
  | _ => True

/-- Control is handed only to a client whose queue has room for the message that says so; to one whose
writer is over it is not handed at all. -/
def SwitchHasRoom (s : System) : Label → Prop
  | .serve env => ∀ source ev events name x y client,
      s.events = ⟨source, .input ev⟩ :: events →
      s.server.switchTarget env ev = some (name, x, y) →
      s.server.clients.lookup name = some client → (s.conns client.tx).writer ≠ .ended →
      (s.conns client.tx).queue.length < CLIENT_QUEUE
  | _ => True

/-- The active client, while it lives, has a token. -/
def Told (s : System) : Prop :=
  ∀ name client, s.server.activeClient = some name →
    s.server.clients.lookup name = some client → (s.conns client.tx).writer ≠ .ended →
    0 < s.tokens client.tx

/-- A step that keeps the active client, the registrations and every token. -/
theorem Told.of_pos (h : Told s) {s' : System}
    (hactive : s'.server.activeClient = s.server.activeClient)
    (hclients : s'.server.clients = s.server.clients)
    (hended : ∀ c, (s.conns c).writer = .ended → (s'.conns c).writer = .ended)
    (htokens : ∀ c, s.Registered c → 0 < s.tokens c → 0 < s'.tokens c) : Told s' := by
  intro name client hname hclient hlive
  rw [hactive] at hname
  rw [hclients] at hclient
  refine htokens client.tx ⟨name, client, hclient, rfl⟩ (h name client hname hclient ?_)
  exact fun hend => hlive (hended client.tx hend)

end System

/-- A step of a connection whose wires lose nothing keeps a token that there is. -/
theorem Conn.Step.tokens_pos {k k' : Conn} {step : ConnStep} (h : k.Step step k')
    (honest : step.Honest)
    (hfailed : step = .failed → k.inHand.countP Message.isSwitch = 0)
    (hsent : ∀ first rest exit sendOk, step = .batch first rest exit sendOk → sendOk = true) :
    k.tokens = 0 ∨ 0 < k'.tokens := by
  cases h with
  | recv hwriter hqueue =>
      unfold tokens
      rw [toClient_recv hwriter hqueue]
      exact Nat.eq_zero_or_pos _
  | written hwriter =>
      unfold tokens
      rw [toClient_written hwriter]
      exact Nat.eq_zero_or_pos _
  | failed hwriter =>
      have hnone := hfailed rfl
      rw [inHand, hwriter] at hnone
      simp only [tokens, toClient, inHand, hwriter, List.countP_append, List.countP_nil, hnone]
      exact Nat.eq_zero_or_pos _
  | send =>
      simp only [tokens, toClient, inHand, List.countP_append]
      omega
  | @batch first rest exit sendOk b wire _ hdown =>
      have hok := hsent first rest exit sendOk rfl
      have hafter := k.tokens_takeBatch b wire sendOk
      rw [hok, Bool.not_true, Bool.and_false, Bool.toNat_false, Nat.add_zero] at hafter
      have hbefore : k.tokens = b.messages.countP Message.isSwitch
          + (wire ++ (k.inHand ++ k.queue)).countP Message.isSwitch
          + k.client.state.active.toNat + k.up.countP Message.isHandBack := by
        rw [tokens, toClient, hdown, List.append_assoc, List.countP_append]
      rw [hok]
      by_cases hin : 0 < k.client.state.active.toNat + b.messages.countP Message.isSwitch
      · have hone := toNat_or_any_pos hin
        omega
      · omega
  | stop => exact Nat.eq_zero_or_pos _

namespace System

variable {s : System}

/-! ## Steps -/

theorem Told.setConn (h : Told s) {c : ConnId} {k : Conn}
    (htokens : (s.conns c).tokens = 0 ∨ 0 < k.tokens)
    (hended : (s.conns c).writer = .ended → k.writer = .ended) : Told (s.setConn c k) := by
  refine h.of_pos rfl rfl ?_ ?_
  · exact setConn_forall (P := fun k₁ k₂ => k₁.writer = .ended → k₂.writer = .ended) (fun _ => id)
      hended
  · intro c' _ hpos
    have hkept := setConn_forall (s := s) (P := fun k₁ k₂ => k₁.tokens = 0 ∨ 0 < k₂.tokens)
      (fun k' => Nat.eq_zero_or_pos k'.tokens) htokens c'
    unfold tokens at hpos ⊢
    show 0 < ((s.setConn c k).conns c').tokens + (s.eventsOf c').countP Event.handsBack
    omega

theorem Told.push (h : Told s) {e : Event} (hsource : e.source.conn = none) : Told (s.push e) := by
  refine h.of_pos rfl rfl (fun _ => id) ?_
  intro c _ hpos
  rw [tokens_push hsource]
  exact hpos

variable {env : Env ConnId} {e : Event} {events : List Event}

/-- An event that keeps the active client and the registrations, and takes no token. -/
theorem Told.served_of_quiet (h : Told s)
    (hevents : s.events = e :: events) (hback : e.handsBack = false)
    (hactive : (s.served env e events).server.activeClient = s.server.activeClient)
    (hclients : (s.served env e events).server.clients = s.server.clients)
    (hquiet : Quiet s.server.clients s.conns (s.served env e events).conns) :
    Told (s.served env e events) := by
  refine h.of_pos hactive hclients ?_ ?_
  · intro c hend
    rw [served_writer]
    exact hend
  · intro c _ hpos
    have hcount := tokens_served_of_quiet env hevents hquiet c
    rw [brought_eq_zero hback] at hcount
    omega

theorem Told.input (h : Told s) (hcoherent : Coherent s.server)
    (hroom : s.SwitchHasRoom (.serve env)) {ev : CaptureEvent} (hevents : s.events = e :: events)
    (he : e = ⟨.capture, .input ev⟩) : Told (s.served env e events) := by
  have hback : e.handsBack = false := by
    rw [he]
    rfl
  have hclients : (s.served env e events).server.clients = s.server.clients := by
    rw [served_clients, he]
    rfl
  cases input_outcome env hcoherent he with
  | kept hactive hquiet => exact h.served_of_quiet hevents hback hactive hclients hquiet
  | lost _ hnone _ _ _ =>
      intro name client hname
      rw [hnone] at hname
      cases hname
  | dropped _ htarget _ hclient hlive hfull _ =>
      rw [he] at hevents
      exact absurd (hroom _ _ _ _ _ _ _ hevents htarget hclient hlive) hfull
  | @switched name client x y _ _ hactive hclient _ _ hconns =>
      intro name' client' hname hclient' _
      rw [hactive] at hname
      rw [hclients, ← Option.some.inj hname, hclient] at hclient'
      rw [← Option.some.inj hclient', tokens_served_switch env hevents hback hconns, if_pos rfl]
      exact Nat.succ_pos _

/-- A `SwitchToServer` takes the token of its own client, which is not active afterwards. -/
theorem Told.message (h : Told s) (hwired : Wired s) {c : ConnId}
    {msg : Message} (hevents : s.events = e :: events)
    (he : e = ⟨.reader c, .clientMessage (s.conns c).name msg⟩) : Told (s.served env e events) := by
  have hclients : (s.served env e events).server.clients = s.server.clients := by
    rw [served_clients, he]
    rfl
  have hhandle : s.server.handle env s.conns e.event
      = s.server.handleClientMessage env s.conns (s.conns c).name msg := by
    rw [he]
    rfl
  rcases Server.handleClientMessage_outcome env s.server s.conns (s.conns c).name msg with
    ⟨_, hback⟩ | ⟨hnot, hactive, hquiet⟩
  · rw [← hhandle] at hback
    have hconns : (s.served env e events).conns = s.conns := congrArg Prod.snd hback
    intro name client hname hclient hlive
    rw [show (s.served env e events).server = _ from congrArg Prod.fst hback,
      Server.deactivate_activeClient] at hname
    split at hname
    · cases hname
    · rename_i hother
      rw [hclients] at hclient
      rw [hconns] at hlive
      -- a message of another client takes none of this one's tokens
      have hne : client.tx ≠ c := by
        intro hc
        rw [← hc, (hwired.announced hclient).2] at hother
        exact hother hname
      have hbrought : brought e client.tx = 0 := by
        unfold brought
        rw [if_neg]
        rw [he]
        exact fun hc => hne (Option.some.inj hc).symm
      have hcount := tokens_served_of_same env hevents hconns client.tx
      have hpos := h name client hname hclient hlive
      omega
  · rw [← hhandle] at hactive hquiet
    refine h.served_of_quiet hevents ?_ hactive hclients hquiet
    rw [he]
    simpa [Event.handsBack, Message.isHandBack] using hnot

theorem Told.gone (h : Told s) {name : String} (hevents : s.events = e :: events)
    (he : e.event = .clientDisconnected name) : Told (s.served env e events) := by
  have hhandle : s.server.handle env s.conns e.event
      = (s.server.handleClientDisconnect name, s.conns) := by
    rw [he]
    rfl
  have hconns : (s.served env e events).conns = s.conns := congrArg Prod.snd hhandle
  have hback : e.handsBack = false := by
    unfold Event.handsBack
    rw [he]
  intro n client hactive hclient hlive
  rw [show (s.served env e events).server = _ from congrArg Prod.fst hhandle] at hactive hclient
  unfold Server.handleClientDisconnect at hactive hclient
  rw [Server.deactivate_clients] at hclient
  rw [Server.deactivate_activeClient] at hactive
  split at hactive
  · cases hactive
  · rename_i hother
    have hne : n ≠ name := by
      rintro rfl
      exact hother hactive
    have hbefore : s.server.clients.lookup n = some client := by
      rw [← AList.lookup_erase_ne hne]
      exact hclient
    rw [hconns] at hlive
    have hcount := tokens_served_of_same env hevents hconns client.tx
    have hpos := h n client hactive hbefore hlive
    rw [brought_eq_zero hback] at hcount
    omega

/-- The active client is not registered anew, as there is one connection of its name. -/
theorem Told.newClient (h : Told s) (hcoherent : Coherent s.server) (hwired : Wired s)
    (hexclusive : Exclusive s) {c : ConnId} (hevents : s.events = e :: events)
    (he : e = ⟨.handler c, .newClient (s.conns c).name (s.conns c).position
      (s.conns c).screenWidth (s.conns c).screenHeight c⟩) : Told (s.served env e events) := by
  have hconns : (s.served env e events).conns = s.conns := by
    rw [he]
    rfl
  have hsame : (s.served env e events).server.activeClient = s.server.activeClient := by
    rw [he]
    rfl
  have hback : e.handsBack = false := by
    rw [he]
    rfl
  intro name client hactive hclient hlive
  rw [hsame] at hactive
  rw [hconns] at hlive
  have hcount := tokens_served_of_same env hevents hconns client.tx
  rw [brought_eq_zero hback] at hcount
  rcases lookup_of_served hwired hevents hclient with hold | ⟨hsource, hname⟩
  · have hpos := h name client hactive hold hlive
    omega
  · exfalso
    obtain ⟨old, hold⟩ := Option.isSome_iff_exists.mp
      (AList.lookup_isSome.mpr (hcoherent.registered name hactive))
    obtain ⟨hannounced, holdName⟩ := hwired.announced hold
    have hconn : e.source.conn = some client.tx := by
      rw [hsource]
      rfl
    have heq : old.tx = client.tx := by
      refine hexclusive.distinct _ _ ?_ (hwired.present hevents hconn) ?_
      · rw [hannounced]
        nofun
      · rw [holdName]
        exact hname
    rw [← heq] at hsource
    have hfresh := fresh_of_first hevents hsource
    exact hwired.not_fresh ⟨name, old, hold, rfl⟩ hfresh

theorem Told.step {s' : System} {l : Label} (h : Told s) (hcoherent : Coherent s.server)
    (hwired : Wired s) (hexclusive : Exclusive s) (hone : s.OneEach l) (hfifo : s.Fifo l)
    (hroom : s.SwitchHasRoom l) (hstep : s.Step l s') : Told s' := by
  cases hstep with
  | @accept c config clipboard now₁ now₂ position habsent _ =>
      have hfresh : s.Fresh c := by
        left
        intro hannounced
        cases habsent.symm.trans hannounced
      have hzero := hexclusive.fresh c hfresh
      apply h.setConn (Or.inl (Nat.eq_zero_of_add_eq_zero_right hzero))
      rw [(hwired.untouched c hfresh).writer]
      intro hended
      cases hended
  | @conn c step k hk =>
      refine h.setConn (hk.tokens_pos hone ?_ ?_) hk.ended
      · rintro rfl
        exact hfifo
      · rintro first rest exit sendOk rfl
        exact hfifo
  | @stopWriter c hwriter hqueue _ =>
      refine h.setConn ?_ ?_
      · have hsame : Conn.tokens { s.conns c with writer := .stopping .senderDropped }
            = (s.conns c).tokens := by
          simp only [Conn.tokens, Conn.toClient, Conn.inHand, hwriter]
        rw [hsame]
        exact Nat.eq_zero_or_pos _
      · intro hended
        cases hwriter.symm.trans hended
  | @emit c what k e hk =>
      refine h.of_pos rfl rfl ?_ ?_
      · refine setConn_forall (P := fun k₁ k₂ => k₁.writer = .ended → k₂.writer = .ended)
          (fun _ => id) ?_
        cases hk <;> first | exact fun _ => rfl | exact id
      · intro c' _ hpos
        rw [tokens_emitted hk]
        exact hpos
  | capture => exact h.push rfl
  | copied => exact h.push rfl
  | @serve env e events hevents =>
      have hgenuine := hwired.first hevents
      cases hgenuine with
      | input ev => exact h.input hcoherent hroom hevents rfl
      | newClient c => exact h.newClient hcoherent hwired hexclusive hevents rfl
      | message c msg => exact h.message hwired hevents rfl
      | readerGone c => exact h.gone hevents rfl
      | writerGone c cause => exact h.gone hevents rfl
      | copied content =>
          have hquiet : (Message.clipboardData content).msgType ≠ .switchToClient := by
            intro hswitch
            cases hswitch
          exact h.served_of_quiet hevents rfl rfl rfl
            (Server.appends_broadcastClipboard env s.server s.conns content hquiet)

/-! ## Every run -/

/-- Somebody on the path knows of the handover: a message that says so is queued or in flight to the
client, or the client is active, or its hand-back is in flight or waits for the event loop. -/
def Accounted (s : System) (c : ConnId) : Prop :=
  (∃ msg ∈ (s.conns c).toClient, msg.msgType = .switchToClient) ∨
    (s.conns c).client.state.active = true ∨
    (∃ msg ∈ (s.conns c).up, msg.msgType = .switchToServer) ∨
    ∃ e ∈ s.eventsOf c, e.handsBack = true

theorem accounted_iff (s : System) (c : ConnId) : s.Accounted c ↔ 0 < s.tokens c := by
  have hswitch : (∃ msg ∈ (s.conns c).toClient, msg.msgType = .switchToClient) ↔
      0 < (s.conns c).toClient.countP Message.isSwitch := by
    simp only [List.countP_pos_iff, Message.isSwitch, decide_eq_true_eq]
  have hup : (∃ msg ∈ (s.conns c).up, msg.msgType = .switchToServer) ↔
      0 < (s.conns c).up.countP Message.isHandBack := by
    simp only [List.countP_pos_iff, Message.isHandBack, decide_eq_true_eq]
  have hqueued : (∃ e ∈ s.eventsOf c, e.handsBack = true) ↔
      0 < (s.eventsOf c).countP Event.handsBack := List.countP_pos_iff.symm
  have hactive : (s.conns c).client.state.active = true ↔
      0 < (s.conns c).client.state.active.toNat := by
    cases (s.conns c).client.state.active <;> simp
  unfold Accounted
  rw [hswitch, hup, hqueued, hactive]
  unfold tokens Conn.tokens
  omega

/-- An active client that is registered and whose writer task has not ended is accounted for. -/
def ControlKept (s : System) : Prop :=
  ∀ name client, s.server.activeClient = some name →
    s.server.clients.lookup name = some client → (s.conns client.tx).writer ≠ .ended →
    s.Accounted client.tx

/-- The paths are FIFO, and clients have distinct names and one connection each. -/
def FifoClients (s : System) (l : Label) : Prop := s.OneEach l ∧ s.Fifo l

/-- Control is kept in every state of every run whose switches find room in the queue. -/
theorem control_not_lost (config : ServerConfig) (hsized : config.Sized) (s : System)
    (h : (System.lts config).Reach (fun s l => s.FifoClients l ∧ s.SwitchHasRoom l) s) :
    s.ControlKept := by
  have htold : Told s := by
    refine LTS.Reach.invariant_of (K := fun s => Sound config s ∧ Exclusive s) ?_ ?_ ?_ h
    · intro s hs
      exact ⟨sound_reach hsized hs, exclusive_reach hsized (fun _ _ hg => hg.1.1) hs⟩
    · rintro _ ⟨clipboard, now, rfl⟩ name client hactive
      cases hactive
    · rintro s l s' hs ⟨⟨⟨hone, hfifo⟩, hroom⟩, hsound, hexclusive⟩ hnext
      exact hs.step hsound.coherent hsound.wired hexclusive hone hfifo hroom (step_of_next hnext)
  intro name client hactive hclient hlive
  exact (accounted_iff s client.tx).mpr (htold name client hactive hclient hlive)

theorem control_not_lost_handOver :
    ∃ s, (System.lts Server.leftConfig).exec
        (System.new Server.leftConfig ClipboardManager.new 0) handOver = some s ∧
      s.server.activeClient = some "laptop" ∧ s.ControlKept := by
  refine ⟨_, rfl, rfl, ?_⟩
  have hroom : ∀ (s : System) (env : Env ConnId), (∀ c, (s.conns c).queue = []) →
      s.SwitchHasRoom (.serve env) := by
    intro s env hempty source ev events name x y client _ _ _ _
    rw [hempty]
    exact Nat.zero_lt_succ _
  have hempty : ∀ {s : System}, (∀ c, (s.conns c).queue = []) → ∀ {c : ConnId} {k : Conn},
      k.queue = [] → ∀ c', (Function.update s.conns c k c').queue = [] := by
    intro s hs c k hk c'
    by_cases hc : c' = c
    · subst hc
      rw [Function.update_self]
      exact hk
    · rw [Function.update_of_ne hc]
      exact hs c'
  have hnew : ∀ c, ((System.new Server.leftConfig ClipboardManager.new 0).conns c).queue = [] :=
    fun _ => rfl
  refine control_not_lost Server.leftConfig ⟨by decide, by decide⟩ _
    ⟨_, handOver, ⟨ClipboardManager.new, 0, rfl⟩, LTS.steps_of_exec rfl
      ⟨⟨⟨fun _ h => absurd rfl h, trivial⟩, trivial⟩, ⟨⟨trivial, trivial⟩, trivial⟩,
        ⟨⟨trivial, trivial⟩, ?_⟩, ⟨⟨trivial, trivial⟩, trivial⟩, ⟨⟨trivial, trivial⟩, ?_⟩,
        trivial⟩⟩
  · exact hroom _ _ (hempty (s := (System.new _ _ _).setConn _ _) (hempty hnew rfl) rfl)
  · exact hroom _ _ (hempty (s := (System.new _ _ _).setConn _ _) (hempty hnew rfl) rfl)

/-! ## A full queue -/

/-- The writer of the laptop stalls, and `k` messages about the clipboard are queued for it. -/
structure Stalled (k : Nat) (s : System) : Prop where
  server : s.server = registered.server
  events : s.events = []
  conn : s.conns 0 =
    { registered.conns 0 with queue := List.replicate k (Message.clipboardData "x") }

theorem lookup_registered :
    registered.server.clients.lookup "laptop" = some ⟨.left, 800, 600, 0⟩ := rfl

/-- Nothing but changes of the clipboard is on its way. -/
theorem Stalled.tokens {k : Nat} (h : Stalled k s) : (s.conns 0).tokens = 0 := by
  rw [h.conn]
  show List.countP Message.isSwitch (List.replicate k _) = 0
  rw [List.countP_replicate]
  rfl

/-- The writer does not run, and one more change of the clipboard is queued. -/
theorem stalled_copied {k : Nat} (h : Stalled k s) (hroom : k < CLIENT_QUEUE) :
    ∃ as s', LTS.Steps (System.lts Server.leftConfig) FifoClients s as s' ∧ Stalled (k + 1) s' := by
  let env : Env ConnId := ⟨0, HashOrder.entries ConnId⟩
  let changed : Event := ⟨.clipboard, .clipboardChanged "x"⟩
  have hcopied : s.next (.copied "x") = some (s.push changed) := by
    show (if _ then _ else _) = _
    rw [if_pos]
    rw [h.events, h.server]
    exact ⟨Nat.zero_lt_succ _, rfl⟩
  have hfirst : (s.push changed).events = [changed] := by
    rw [System.push, h.events]
    rfl
  have hserve := next_serve env hfirst
  have hconns : ((s.push changed).served env changed []).conns
      = Function.update s.conns 0
        { s.conns 0 with queue := (s.conns 0).queue ++ [Message.clipboardData "x"] } := by
    show (s.server.handle env s.conns (.clipboardChanged "x")).2 = _
    rw [h.server]
    -- the laptop is the only client that the change goes to
    show (registered.server.sendTo s.conns "laptop" (Message.clipboardData "x")).2 = _
    rw [Server.sendTo_registered lookup_registered, trySend_room]
    · rw [h.conn]
      nofun
    · rw [h.conn]
      simpa using hroom
  refine ⟨[.copied "x", .serve env], _, .cons ⟨trivial, trivial⟩ hcopied
    (.single ⟨trivial, trivial⟩ hserve), ?_, rfl, ?_⟩
  · exact h.server
  · rw [hconns, Function.update_self, h.conn, List.replicate_succ']

/-- The queue of a stalled writer can be as full as it gets. -/
theorem stalled_reach (k : Nat) (hk : k ≤ CLIENT_QUEUE) :
    ∃ s, (System.lts Server.leftConfig).Reach FifoClients s ∧ Stalled k s := by
  induction k with
  | zero =>
      refine ⟨registered, ⟨_, handOver.take 3, ⟨ClipboardManager.new, 0, rfl⟩, ?_⟩, rfl, rfl, rfl⟩
      exact LTS.steps_of_exec rfl ⟨⟨fun _ h => absurd rfl h, trivial⟩, ⟨trivial, trivial⟩,
        ⟨trivial, trivial⟩, trivial⟩
  | succ k ih =>
      obtain ⟨s, hreach, hstalled⟩ := ih (by omega)
      obtain ⟨as, s', hsteps, hstalled'⟩ := stalled_copied hstalled (by omega)
      exact ⟨s', hreach.steps hsteps, hstalled'⟩

/-- Behind a full queue the cursor crosses the edge: the laptop is the active client, and neither it
nor any message knows. -/
theorem control_lost :
    ¬ ∀ config : ServerConfig, config.Sized → ∀ s : System,
      (System.lts config).Reach FifoClients s → s.ControlKept := by
  intro hall
  obtain ⟨s, hreach, hstalled⟩ := stalled_reach CLIENT_QUEUE (Nat.le_refl _)
  let env : Env ConnId := ⟨0, HashOrder.entries ConnId⟩
  let crossed : Event := ⟨.capture, .input (.mouseMove (-1000) 0)⟩
  have hcapture : s.next (.capture (.mouseMove (-1000) 0)) = some (s.push crossed) := by
    show (if _ then _ else _) = _
    rw [if_pos]
    rw [hstalled.events]
    exact Nat.zero_lt_succ _
  have hfirst : (s.push crossed).events = [crossed] := by
    rw [System.push, hstalled.events]
    rfl
  have hserve := next_serve env hfirst
  -- the switch is made, and its message is the one that finds the queue full
  have hhandle : s.server.handle env s.conns crossed.event
      = ((registered.server.moveCursor (-1000) 0).handedOver "laptop", s.conns) := by
    rw [hstalled.server]
    show ((registered.server.moveCursor (-1000) 0).handedOver "laptop").sendOrDeactivate s.conns
      "laptop" (Message.switchToClient 700 300) = _
    have hlookup : ((registered.server.moveCursor (-1000) 0).handedOver "laptop").clients.lookup
        "laptop" = some ⟨.left, 800, 600, 0⟩ := lookup_registered
    unfold Server.sendOrDeactivate
    rw [Server.sendTo_registered hlookup, trySend_full]
    · rfl
    · rw [hstalled.conn]
      nofun
    · rw [hstalled.conn]
      simp
  have hserver : ((s.push crossed).served env crossed []).server
      = (registered.server.moveCursor (-1000) 0).handedOver "laptop" := congrArg Prod.fst hhandle
  have hconns : ((s.push crossed).served env crossed []).conns = s.conns := congrArg Prod.snd hhandle
  have hsteps : LTS.Steps (System.lts Server.leftConfig) FifoClients s
      [.capture (.mouseMove (-1000) 0), .serve env] ((s.push crossed).served env crossed []) :=
    .cons ⟨trivial, trivial⟩ hcapture (.single ⟨trivial, trivial⟩ hserve)
  have haccounted := hall Server.leftConfig ⟨by decide, by decide⟩ _ (hreach.steps hsteps) "laptop"
    ⟨.left, 800, 600, 0⟩ (by rw [hserver]; rfl) (by rw [hserver]; rfl)
    (by rw [hconns, hstalled.conn]; nofun)
  have hnone : ((s.push crossed).served env crossed []).tokens 0 = 0 := by
    unfold tokens
    rw [hconns, hstalled.tokens]
    rfl
  have hpos : 0 < ((s.push crossed).served env crossed []).tokens 0 :=
    (accounted_iff _ _).mp haccounted
  omega

end System

end Bluecross
