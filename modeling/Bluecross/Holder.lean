/-
# Bluecross.Holder — who holds control, over every interleaving.

Control is a token. It lies in a `SwitchToClient` on its way to a client, in the active client, or in
a `SwitchToServer` on its way back, and the server remembers whom it gave it to. `tokens` counts the
places of one connection.

`at_most_one_holder`: a live client has at most one token, and it has one only while it is the
server's active client, whatever is dropped or fails. The invariant is `Exclusive`: a connection that
is not registered yet has no token, and one that is has at most one. A step of a connection moves
tokens and makes none, a captured motion makes one for the client it activates, and a hand-back that
is handled takes one away. That no client has its token twice rests on names: the server knows the
active client by its name, and there is one connection of each.
-/
import Bluecross.ClientControl
import Bluecross.Wiring

namespace Bluecross

open Lib (LTS)

/-! ## Tokens of one connection -/

namespace Conn

/-- What the writer has taken out of the queue and not yet written. -/
def inHand (k : Conn) : List Message :=
  match k.writer with
  | .writing msg => [msg]
  | _ => []

/-- The messages on their way to the client, the oldest first. -/
def toClient (k : Conn) : List Message := k.down ++ (k.inHand ++ k.queue)

/-- The places of the connection where control can be. -/
def tokens (k : Conn) : Nat :=
  k.toClient.countP Message.isSwitch + k.client.state.active.toNat + k.up.countP Message.isHandBack

end Conn

/-- What a client program writes of its own accord. -/
def ConnStep.Honest : ConnStep → Prop
  | .send msg => msg.msgType = .heartbeat ∨ msg.msgType = .clipboardData
  | _ => True

theorem toNat_or_any_le (a : Bool) (p : Message → Bool) (l : List Message) :
    (a || l.any p).toNat ≤ a.toNat + l.countP p := by
  cases a with
  | true =>
      rw [Bool.true_or]
      omega
  | false =>
      rw [Bool.false_or]
      rcases hany : l.any p with _ | _
      · exact Nat.zero_le _
      · have hpos : 0 < l.countP p := List.countP_pos_iff.mpr (List.any_eq_true.mp hany)
        show 1 ≤ _
        omega

theorem toNat_or_any_pos {a : Bool} {p : Message → Bool} {l : List Message}
    (h : 0 < a.toNat + l.countP p) : (a || l.any p).toNat = 1 := by
  have htrue : (a || l.any p) = true := by
    cases a with
    | true => rfl
    | false =>
        rw [Bool.false_or, List.any_eq_true]
        apply List.countP_pos_iff.mp
        rw [Bool.toNat_false] at h
        omega
  rw [htrue]
  rfl

namespace Conn

variable {k k' : Conn}

/-- The messages on their way move along, without a change, as the writer works. -/
theorem toClient_recv {msg : Message} {queue : List Message} (hwriter : k.writer = .idle)
    (hqueue : k.queue = msg :: queue) :
    toClient { k with writer := .writing msg, queue := queue } = k.toClient := by
  simp only [toClient, inHand, hwriter, hqueue, List.nil_append, List.singleton_append]

theorem toClient_written {msg : Message} (hwriter : k.writer = .writing msg) :
    toClient { k with writer := .idle, down := k.down ++ [msg] } = k.toClient := by
  simp only [toClient, inHand, hwriter, List.nil_append, List.append_assoc]

theorem takeBatch_kept {b : Batch} (h : (k.client.handleBatch b).2 = false) (wire : List Message)
    (sendOk : Bool) :
    k.takeBatch b wire sendOk = { k with client := (k.client.handleBatch b).1, down := wire } := by
  unfold takeBatch
  simp only [h, Bool.false_eq_true, if_false]

theorem takeBatch_back {b : Batch} (h : (k.client.handleBatch b).2 = true) (wire : List Message) :
    k.takeBatch b wire true =
      { k with
        client := (k.client.handleBatch b).1
        down := wire
        up := k.up ++ [Message.switchToServer] } := by
  unfold takeBatch
  simp only [h, if_true]

theorem takeBatch_failed {b : Batch} (h : (k.client.handleBatch b).2 = true)
    (wire : List Message) :
    k.takeBatch b wire false
      = stopClient { k with client := (k.client.handleBatch b).1, down := wire } := by
  unfold takeBatch
  simp only [h, if_true, Bool.false_eq_true, if_false]

/-- After a batch: the control there was in the client and in the batch is in the client, on its way
back, or, when the hand-back cannot be written, nowhere. -/
theorem tokens_takeBatch (k : Conn) (b : Batch) (wire : List Message) (sendOk : Bool) :
    (k.takeBatch b wire sendOk).tokens
        + ((k.client.handleBatch b).2 && !sendOk).toNat
      = (wire ++ (k.inHand ++ k.queue)).countP Message.isSwitch
        + (k.client.state.active || b.messages.any Message.isSwitch).toNat
        + k.up.countP Message.isHandBack := by
  have hcontrol := k.client.handleBatch_control b
  have hone : [Message.switchToServer].countP Message.isHandBack = 1 := rfl
  rcases hback : (k.client.handleBatch b).2 with _ | _
  · rw [hback, Bool.toNat_false, Nat.add_zero] at hcontrol
    rw [takeBatch_kept hback, ← hcontrol, Bool.false_and, Bool.toNat_false, Nat.add_zero]
    rfl
  · rw [hback, Bool.toNat_true] at hcontrol
    cases sendOk with
    | true =>
        rw [takeBatch_back hback, ← hcontrol]
        simp only [tokens, toClient, inHand, List.countP_append, hone, Bool.not_true, Bool.and_false,
          Bool.toNat_false]
        omega
    | false =>
        -- the token is in a message that was never written
        rw [takeBatch_failed hback, ← hcontrol]
        simp only [tokens, toClient, inHand, stopClient, Bool.not_false, Bool.and_self,
          Bool.toNat_true]
        omega

/-- No step of a connection makes a token. -/
theorem Step.tokens_le {step : ConnStep} (h : k.Step step k') (honest : step.Honest) :
    k'.tokens ≤ k.tokens := by
  cases h with
  | recv hwriter hqueue =>
      unfold tokens
      rw [toClient_recv hwriter hqueue]
  | written hwriter =>
      unfold tokens
      rw [toClient_written hwriter]
  | failed hwriter =>
      simp only [tokens, toClient, inHand, hwriter, List.countP_append, List.countP_nil]
      omega
  | @send msg _ =>
      have hnot : [msg].countP Message.isHandBack = 0 := by
        rcases honest with htype | htype <;> simp [Message.isHandBack, htype]
      simp only [tokens, toClient, inHand, List.countP_append, hnot]
      omega
  | @batch first rest exit sendOk b wire _ hdown =>
      have hafter := k.tokens_takeBatch b wire sendOk
      have hle := toNat_or_any_le k.client.state.active Message.isSwitch b.messages
      have hbefore : k.tokens = b.messages.countP Message.isSwitch
          + (wire ++ (k.inHand ++ k.queue)).countP Message.isSwitch
          + k.client.state.active.toNat + k.up.countP Message.isHandBack := by
        rw [tokens, toClient, hdown, List.append_assoc, List.countP_append]
      omega
  | stop => exact Nat.le_refl _

/-- A writer that is over stays over. -/
theorem Step.ended {step : ConnStep} (h : k.Step step k') (hend : k.writer = .ended) :
    k'.writer = .ended := by
  cases h with
  | recv hwriter =>
      rw [hwriter] at hend
      cases hend
  | written hwriter =>
      rw [hwriter] at hend
      cases hend
  | failed hwriter =>
      rw [hwriter] at hend
      cases hend
  | send => exact hend
  | batch =>
      rw [takeBatch_writer]
      exact hend
  | stop => exact hend

end Conn

/-! ## Tokens of the system -/

/-- The event is a `SwitchToServer` that waits for the event loop. -/
def Event.handsBack (e : Event) : Bool :=
  match e.event with
  | .clientMessage _ msg => msg.isHandBack
  | _ => false

/-- A reader only moves a token, from the wire into the queue of events. -/
theorem Conn.Emits.tokens {c : ConnId} {k k' : Conn} {what : Emit} {e : Event}
    (h : k.Emits c what k' e) : k'.tokens + [e].countP Event.handsBack = k.tokens := by
  cases h with
  | announce => rfl
  | readerReport => rfl
  | writerReport hwriter =>
      simp only [Conn.tokens, Conn.toClient, Conn.inHand, hwriter]
      rfl
  | @readerDeliver msg up _ _ hup =>
      have hcount : [(⟨.reader c, .clientMessage k.name msg⟩ : Event)].countP Event.handsBack
          = [msg].countP Message.isHandBack := rfl
      rw [hcount]
      simp only [Conn.tokens, Conn.toClient, Conn.inHand, hup, List.countP_cons, List.countP_nil]
      omega

namespace System

/-- The places where control can be, on the path to a client, in it, and on the path back. -/
def tokens (s : System) (c : ConnId) : Nat :=
  (s.conns c).tokens + (s.eventsOf c).countP Event.handsBack

/-- Clients have pairwise distinct names and one connection each, and they run the client program. -/
def OneEach (s : System) : Label → Prop
  | .accept _ config _ _ _ => ∀ c, (s.conns c).phase ≠ .absent → (s.conns c).name ≠ config.name
  | .conn _ step => step.Honest
  | _ => True

/-- Control is in one place at most, and the server knows where. -/
structure Exclusive (s : System) : Prop where
  distinct : ∀ c c', (s.conns c).phase ≠ .absent → (s.conns c').phase ≠ .absent →
    (s.conns c).name = (s.conns c').name → c = c'
  fresh : ∀ c, s.Fresh c → s.tokens c = 0
  single : ∀ c, s.Registered c → (s.conns c).writer ≠ .ended →
    s.tokens c ≤ 1 ∧ (s.tokens c = 1 → s.server.activeClient = some (s.conns c).name)

variable {s : System}

/-- A registered connection is announced, under its own name. -/
theorem Wired.announced (h : Wired s) {name : String} {client : ClientInfo ConnId}
    (hclient : s.server.clients.lookup name = some client) :
    (s.conns client.tx).phase = .announced ∧ (s.conns client.tx).name = name := by
  obtain ⟨hfresh, hname⟩ := h.registered name client hclient
  refine ⟨?_, hname⟩
  by_contra hne
  exact hfresh (Or.inl hne)

/-- Under one name there is one connection. -/
theorem Exclusive.eq_of_name (h : Exclusive s) (hwired : Wired s) {c c' : ConnId}
    (hc : s.Registered c) (hc' : s.Registered c')
    (hname : (s.conns c).name = (s.conns c').name) : c = c' := by
  obtain ⟨n, client, hclient, rfl⟩ := hc
  obtain ⟨n', client', hclient', rfl⟩ := hc'
  refine h.distinct _ _ ?_ ?_ hname
  · rw [(hwired.announced hclient).1]
    nofun
  · rw [(hwired.announced hclient').1]
    nofun

/-- A step that makes no token and registers nobody, and after which whoever has a token is still the
active client. -/
theorem Exclusive.of_le {s' : System} (h : Exclusive s)
    (hname : ∀ c, (s'.conns c).name = (s.conns c).name)
    (hpresent : ∀ c, (s'.conns c).phase ≠ .absent → (s.conns c).phase ≠ .absent)
    (hfresh : ∀ c, s'.Fresh c → s.Fresh c)
    (hregistered : ∀ c, s'.Registered c → s.Registered c)
    (hended : ∀ c, (s.conns c).writer = .ended → (s'.conns c).writer = .ended)
    (htokens : ∀ c, s'.tokens c ≤ s.tokens c)
    (hactive : ∀ c, s'.Registered c → (s.conns c).writer ≠ .ended → s'.tokens c = 1 →
      s.server.activeClient = some (s.conns c).name →
      s'.server.activeClient = some (s.conns c).name) : Exclusive s' := by
  refine ⟨?_, ?_, ?_⟩
  · intro c₁ c₂ h₁ h₂ heq
    rw [hname, hname] at heq
    exact h.distinct c₁ c₂ (hpresent c₁ h₁) (hpresent c₂ h₂) heq
  · intro c hf
    have hzero := h.fresh c (hfresh c hf)
    have hle := htokens c
    omega
  · intro c hr hlive
    have hlive' : (s.conns c).writer ≠ .ended := fun hend => hlive (hended c hend)
    obtain ⟨hone, hholder⟩ := h.single c (hregistered c hr) hlive'
    have hle := htokens c
    refine ⟨by omega, ?_⟩
    intro heq
    rw [hname]
    exact hactive c hr hlive' heq (hholder (by omega))

theorem Exclusive.setConn (h : Exclusive s) {c : ConnId} {k : Conn}
    (hid : (s.conns c).SameIdentity k) (htokens : k.tokens ≤ (s.conns c).tokens)
    (hended : (s.conns c).writer = .ended → k.writer = .ended) : Exclusive (s.setConn c k) := by
  refine h.of_le ?_ ?_ ?_ (fun _ => id) ?_ ?_ (fun _ _ _ _ => id)
  · exact setConn_forall (P := fun k₁ k₂ => k₂.name = k₁.name) (fun _ => rfl) hid.name
  · refine setConn_forall (P := fun k₁ k₂ => k₂.phase ≠ .absent → k₁.phase ≠ .absent)
      (fun _ => id) ?_
    rw [hid.phase]
    exact id
  · intro c'
    apply fresh_of_setConn
    rw [hid.phase]
    exact id
  · exact setConn_forall (P := fun k₁ k₂ => k₁.writer = .ended → k₂.writer = .ended) (fun _ => id)
      hended
  · intro c'
    refine Nat.add_le_add_right ?_ _
    exact setConn_forall (P := fun k₁ k₂ => k₂.tokens ≤ k₁.tokens) (fun _ => Nat.le_refl _) htokens c'

/-- A connection that enters brings no token and a name of its own. -/
theorem Exclusive.accept (h : Exclusive s) (hwired : Wired s) {c : ConnId} {k : Conn}
    (habsent : (s.conns c).phase = .absent) (hk : k.tokens = 0)
    (hname : ∀ c', (s.conns c').phase ≠ .absent → (s.conns c').name ≠ k.name) :
    Exclusive (s.setConn c k) := by
  -- nothing of it is in the queue of events either
  have hsilent : s.eventsOf c = [] := hwired.silent c (by rw [habsent]; nofun)
  have hzero : (s.setConn c k).tokens c = 0 := by
    show ((s.setConn c k).conns c).tokens + (s.eventsOf c).countP Event.handsBack = 0
    rw [conns_setConn_self, hk, hsilent]
    rfl
  have hother : ∀ c', c' ≠ c → (s.setConn c k).tokens c' = s.tokens c' := by
    intro c' hc
    show ((s.setConn c k).conns c').tokens + (s.eventsOf c').countP Event.handsBack = _
    rw [conns_setConn_of_ne hc]
    rfl
  refine ⟨?_, ?_, ?_⟩
  · intro c₁ c₂ h₁ h₂ heq
    by_cases hc₁ : c₁ = c <;> by_cases hc₂ : c₂ = c
    · rw [hc₁, hc₂]
    · rw [hc₁, conns_setConn_self, conns_setConn_of_ne hc₂] at heq
      rw [conns_setConn_of_ne hc₂] at h₂
      exact absurd heq.symm (hname c₂ h₂)
    · rw [hc₂, conns_setConn_self, conns_setConn_of_ne hc₁] at heq
      rw [conns_setConn_of_ne hc₁] at h₁
      exact absurd heq (hname c₁ h₁)
    · rw [conns_setConn_of_ne hc₁] at h₁ heq
      rw [conns_setConn_of_ne hc₂] at h₂ heq
      exact h.distinct c₁ c₂ h₁ h₂ heq
  · intro c' hf
    by_cases hc : c' = c
    · rw [hc]
      exact hzero
    · rw [hother c' hc]
      apply h.fresh c'
      rcases hf with hne | hevent
      · rw [conns_setConn_of_ne hc] at hne
        exact Or.inl hne
      · exact Or.inr hevent
  · intro c' hr hlive
    have hc : c' ≠ c := by
      rintro rfl
      have hnot := hwired.not_fresh (c := c') hr
      exact hnot (Or.inl (by rw [habsent]; nofun))
    rw [conns_setConn_of_ne hc] at hlive ⊢
    rw [hother c' hc]
    exact h.single c' hr hlive

/-- An event that no connection sends moves no token. -/
theorem tokens_push {e : Event} (hsource : e.source.conn = none) (c : ConnId) :
    (s.push e).tokens c = s.tokens c := by
  unfold tokens
  rw [eventsOf_push, hsource, if_neg nofun, List.append_nil]
  rfl

theorem Exclusive.push (h : Exclusive s) {e : Event} (hsource : e.source.conn = none) :
    Exclusive (s.push e) := by
  refine h.of_le (fun _ => rfl) (fun _ => id) ?_ (fun _ => id) (fun _ => id) ?_
    (fun _ _ _ _ => id)
  · intro c hf
    refine (fresh_of_push hf).resolve_right fun hhandler => ?_
    rw [hhandler] at hsource
    cases hsource
  · intro c
    exact Nat.le_of_eq (tokens_push hsource c)

/-- An event that is sent moves a token into the queue, or none. -/
theorem tokens_emitted {c : ConnId} {what : Emit} {k : Conn} {e : Event}
    (hk : (s.conns c).Emits c what k e) (c' : ConnId) :
    ((s.setConn c k).push e).tokens c' = s.tokens c' := by
  have hconn : e.source.conn = some c := by cases hk <;> rfl
  have hmoved := hk.tokens
  unfold tokens
  rw [eventsOf_push]
  show ((s.setConn c k).conns c').tokens + (s.eventsOf c' ++ _).countP Event.handsBack = _
  rw [List.countP_append]
  by_cases hc : c' = c
  · subst hc
    rw [conns_setConn_self, if_pos hconn]
    omega
  · have hnot : e.source.conn ≠ some c' := by
      rw [hconn]
      exact fun heq => hc (Option.some.inj heq).symm
    rw [conns_setConn_of_ne hc, if_neg hnot, List.countP_nil, Nat.add_zero]

theorem Exclusive.emitted (h : Exclusive s) (hwired : Wired s) {c : ConnId} {what : Emit} {k : Conn}
    {e : Event} (hk : (s.conns c).Emits c what k e) : Exclusive ((s.setConn c k).push e) := by
  have hpresent : (s.conns c).phase ≠ .absent := by
    intro habsent
    have hfresh : s.Fresh c := Or.inl (by rw [habsent]; nofun)
    cases hk with
    | writerReport hwriter =>
        rw [(hwired.untouched c hfresh).writer] at hwriter
        cases hwriter
    | announce hphase =>
        rw [hphase] at habsent
        cases habsent
    | readerDeliver hphase =>
        rw [hphase] at habsent
        cases habsent
    | readerReport hphase =>
        rw [hphase] at habsent
        cases habsent
  refine h.of_le ?_ ?_ (fun c' => fresh_of_emitted hk) (fun _ => id) ?_ ?_ (fun _ _ _ _ => id)
  · refine setConn_forall (P := fun k₁ k₂ => k₂.name = k₁.name) (fun _ => rfl) ?_
    cases hk <;> rfl
  · exact setConn_forall (P := fun k₁ k₂ => k₂.phase ≠ .absent → k₁.phase ≠ .absent)
      (fun _ => id) (fun _ => hpresent)
  · refine setConn_forall (P := fun k₁ k₂ => k₁.writer = .ended → k₂.writer = .ended)
      (fun _ => id) ?_
    cases hk <;> first | exact fun _ => rfl | exact id
  · intro c'
    exact Nat.le_of_eq (tokens_emitted hk c')

/-! ## Tokens and the event loop -/

variable {env : Env ConnId} {e : Event} {events : List Event}

theorem quiet_tokens {clients : Clients ConnId} {conns conns' : Conns}
    (h : Quiet clients conns conns') (c : ConnId) : (conns' c).tokens = (conns c).tokens := by
  obtain ⟨more, hc, hmore, _⟩ := h c
  have hnone : more.countP Message.isSwitch = 0 := by
    apply List.countP_eq_zero.mpr
    intro msg hmsg
    simpa [Message.isSwitch] using hmore msg hmsg
  rw [hc]
  simp only [Conn.tokens, Conn.toClient, Conn.inHand, List.countP_append, hnone]
  omega

/-- The token that an event has brought from the connection to the event loop. -/
def brought (e : Event) (c : ConnId) : Nat :=
  if e.source.conn = some c then [e].countP Event.handsBack else 0

theorem brought_eq_zero {e : Event} (h : e.handsBack = false) (c : ConnId) : brought e c = 0 := by
  unfold brought
  split
  · rw [List.countP_cons_of_neg (by rw [h]; nofun)]
    rfl
  · rfl

theorem tokens_served (env : Env ConnId) (hevents : s.events = e :: events) (c : ConnId) :
    (s.served env e events).tokens c + brought e c + (s.conns c).tokens
      = s.tokens c + ((s.served env e events).conns c).tokens := by
  unfold tokens brought
  rw [eventsOf_served env hevents c]
  split
  · rw [List.countP_append]
    omega
  · rw [List.nil_append]
    omega

/-- After an event that queues no `SwitchToClient` only what the event brought is gone. -/
theorem tokens_served_of_quiet (env : Env ConnId) (hevents : s.events = e :: events)
    (h : Quiet s.server.clients s.conns (s.served env e events).conns) (c : ConnId) :
    (s.served env e events).tokens c + brought e c = s.tokens c := by
  have hcount := tokens_served env hevents c
  have hquiet := quiet_tokens h c
  omega

/-- After an event that queues nothing. -/
theorem tokens_served_of_same (env : Env ConnId) (hevents : s.events = e :: events)
    (h : (s.served env e events).conns = s.conns) (c : ConnId) :
    (s.served env e events).tokens c + brought e c = s.tokens c := by
  apply tokens_served_of_quiet env hevents
  rw [h]
  exact Appends.refl s.server.clients s.conns

/-- A `SwitchToClient` that is queued is a token of its client. -/
theorem tokens_served_switch (env : Env ConnId) (hevents : s.events = e :: events)
    (hback : e.handsBack = false) {a : ConnId} {x y : Int32}
    (hconns : (s.served env e events).conns = Function.update s.conns a
      { s.conns a with queue := (s.conns a).queue ++ [Message.switchToClient x y] }) (c : ConnId) :
    (s.served env e events).tokens c = s.tokens c + if c = a then 1 else 0 := by
  have hcount := tokens_served env hevents c
  rw [brought_eq_zero hback] at hcount
  by_cases hc : c = a
  · have hself : ((s.served env e events).conns c).tokens = (s.conns c).tokens + 1 := by
      have hone : [Message.switchToClient x y].countP Message.isSwitch = 1 := rfl
      rw [hconns, hc, Function.update_self]
      simp only [Conn.tokens, Conn.toClient, Conn.inHand, List.countP_append, hone]
      omega
    rw [if_pos hc]
    omega
  · rw [hconns, Function.update_of_ne hc] at hcount
    rw [if_neg hc]
    omega

theorem Exclusive.served_of_le (h : Exclusive s)
    (hevents : s.events = e :: events)
    (hregistered : ∀ c, (s.served env e events).Registered c → s.Registered c)
    (htokens : ∀ c, (s.served env e events).tokens c ≤ s.tokens c)
    (hactive : ∀ c, (s.served env e events).Registered c → (s.conns c).writer ≠ .ended →
      (s.served env e events).tokens c = 1 →
      s.server.activeClient = some (s.conns c).name →
      (s.served env e events).server.activeClient = some (s.conns c).name) :
    Exclusive (s.served env e events) := by
  refine h.of_le ?_ ?_ ?_ hregistered ?_ htokens hactive
  · intro c
    exact (served_identity c).name
  · intro c hne
    rw [(served_identity c).phase] at hne
    exact hne
  · intro c hf
    exact fresh_of_served hevents hf
  · intro c hend
    rw [served_writer]
    exact hend

/-- While nobody is active, no live client has a token. -/
theorem Exclusive.idle (h : Exclusive s) (hidle : s.server.activeClient = none) {c : ConnId}
    (hr : s.Registered c) (hlive : (s.conns c).writer ≠ .ended) : s.tokens c = 0 := by
  obtain ⟨hone, hactive⟩ := h.single c hr hlive
  by_contra hne
  have hsome := hactive (by omega)
  rw [hidle] at hsome
  cases hsome

/-- A switch: nobody had a token, and now the client that was switched to has one. -/
theorem Exclusive.switched (h : Exclusive s) (hwired : Wired s) (hevents : s.events = e :: events)
    (hback : e.handsBack = false)
    (hregistered : ∀ c, (s.served env e events).Registered c → s.Registered c)
    (hidle : s.server.activeClient = none) {name : String} {client : ClientInfo ConnId}
    {x y : Int32} (hactive : (s.served env e events).server.activeClient = some name)
    (hclient : s.server.clients.lookup name = some client)
    (hconns : (s.served env e events).conns = Function.update s.conns client.tx
      { s.conns client.tx with
        queue := (s.conns client.tx).queue ++ [Message.switchToClient x y] }) :
    Exclusive (s.served env e events) := by
  have htokens := tokens_served_switch env hevents hback hconns
  refine ⟨?_, ?_, ?_⟩
  · intro c₁ c₂ h₁ h₂ heq
    rw [(served_identity c₁).phase] at h₁
    rw [(served_identity c₂).phase] at h₂
    rw [(served_identity c₁).name, (served_identity c₂).name] at heq
    exact h.distinct c₁ c₂ h₁ h₂ heq
  · intro c hf
    have hbefore := fresh_of_served hevents hf
    have hc : c ≠ client.tx := by
      rintro rfl
      exact hwired.not_fresh ⟨name, client, hclient, rfl⟩ hbefore
    rw [htokens, if_neg hc, h.fresh c hbefore]
  · intro c hr hlive
    rw [served_writer] at hlive
    rw [htokens, h.idle hidle (hregistered c hr) hlive, (served_identity c).name]
    split
    · rename_i hc
      refine ⟨Nat.le_refl _, fun _ => ?_⟩
      rw [hc, (hwired.announced hclient).2]
      exact hactive
    · exact ⟨Nat.zero_le _, nofun⟩

/-- What comes of captured input that the event loop serves. -/
theorem input_outcome (env : Env ConnId) (hcoherent : Coherent s.server) {ev : CaptureEvent}
    (he : e = ⟨.capture, .input ev⟩) :
    Server.InputOutcome env ev s.server s.conns (s.served env e events).server
      (s.served env e events).conns := by
  rw [he]
  exact Server.handleInput_outcome env hcoherent ev

/-- Captured input. -/
theorem Exclusive.input (h : Exclusive s) (hcoherent : Coherent s.server) (hwired : Wired s)
    {ev : CaptureEvent} (hevents : s.events = e :: events) (he : e = ⟨.capture, .input ev⟩) :
    Exclusive (s.served env e events) := by
  have hregistered : ∀ c, (s.served env e events).Registered c → s.Registered c := by
    apply registered_of_served
    rw [he]
    rfl
  have hbrought : ∀ c, brought e c = 0 := by
    intro c
    rw [he]
    rfl
  cases input_outcome env hcoherent he with
  | kept hactive hquiet =>
      have htokens := tokens_served_of_quiet env hevents hquiet
      refine h.served_of_le hevents hregistered ?_ ?_
      · intro c
        have := htokens c
        omega
      · intro c _ _ _ hname
        exact hactive.trans hname
  | @lost name client hactive _ hclient hended hquiet =>
      have htokens := tokens_served_of_quiet env hevents hquiet
      refine h.served_of_le hevents hregistered ?_ ?_
      · intro c
        have := htokens c
        omega
      · -- the one that had the token is the one whose writer is over
        intro c hr hlive _ hname
        rw [hactive] at hname
        have hc : c = client.tx := by
          refine h.eq_of_name hwired (hregistered c hr) ⟨name, client, hclient, rfl⟩ ?_
          rw [(hwired.announced hclient).2]
          exact (Option.some.inj hname).symm
        rw [hc] at hlive
        exact absurd hended hlive
  | dropped hidle _ _ _ _ _ hsame =>
      have htokens : ∀ c, (s.served env e events).tokens c = s.tokens c := by
        intro c
        have hcount := tokens_served_of_same env hevents hsame c
        rw [hbrought, Nat.add_zero] at hcount
        exact hcount
      refine h.served_of_le hevents hregistered ?_ ?_
      · intro c
        exact Nat.le_of_eq (htokens c)
      · intro c hr hlive hone _
        rw [htokens, h.idle hidle (hregistered c hr) hlive] at hone
        cases hone
  | @switched name client x y hidle _ hactive hclient _ _ hconns =>
      have hback : e.handsBack = false := by
        rw [he]
        rfl
      exact h.switched hwired hevents hback hregistered hidle hactive hclient hconns

/-- A connection that has sent an event is there. -/
theorem Wired.present (h : Wired s) (hevents : s.events = e :: events) {c : ConnId}
    (hc : e.source.conn = some c) : (s.conns c).phase ≠ .absent := by
  intro habsent
  have hmem : e ∈ s.eventsOf c := mem_eventsOf.mpr ⟨first_mem hevents, hc⟩
  rw [h.silent c (by rw [habsent]; nofun)] at hmem
  cases hmem

/-- A message from a client. A `SwitchToServer` takes its own client's token with it. -/
theorem Exclusive.message (h : Exclusive s) (hwired : Wired s)
    {c : ConnId} {msg : Message} (hevents : s.events = e :: events)
    (he : e = ⟨.reader c, .clientMessage (s.conns c).name msg⟩) :
    Exclusive (s.served env e events) := by
  have hregistered : ∀ c', (s.served env e events).Registered c' → s.Registered c' := by
    apply registered_of_served
    rw [he]
    rfl
  have hhandle : s.server.handle env s.conns e.event
      = s.server.handleClientMessage env s.conns (s.conns c).name msg := by
    rw [he]
    rfl
  rcases Server.handleClientMessage_outcome env s.server s.conns (s.conns c).name msg with
    ⟨htype, hback⟩ | ⟨_, hactive, hquiet⟩
  · rw [← hhandle] at hback
    have hserver : (s.served env e events).server = s.server.deactivate (s.conns c).name :=
      congrArg Prod.fst hback
    have hconns : (s.served env e events).conns = s.conns := congrArg Prod.snd hback
    have htokens := tokens_served_of_same env hevents hconns
    refine h.served_of_le hevents hregistered ?_ ?_
    · intro c'
      have := htokens c'
      omega
    · intro c' hr hlive hone hname
      have hcount := htokens c'
      have hother : (s.conns c').name ≠ (s.conns c).name := by
        intro heq
        -- the client that hands back had the one token, and now it has none
        obtain ⟨n, client, hclient, htx⟩ := hregistered c' hr
        have hpresent' : (s.conns c').phase ≠ .absent := by
          rw [← htx, (hwired.announced hclient).1]
          nofun
        have hc : c' = c :=
          h.distinct c' c hpresent' (hwired.present hevents (by rw [he]; rfl)) heq
        have hgone : brought e c' = 1 := by
          rw [he, hc]
          simp [brought, Source.conn, Event.handsBack, Message.isHandBack, htype]
        have hle := (h.single c' (hregistered c' hr) hlive).1
        omega
      -- somebody else is active, and `deactivate` ignores the message
      rw [hserver, Server.deactivate_of_ne]
      · exact hname
      · rw [hname]
        exact fun heq => hother (Option.some.inj heq)
  · rw [← hhandle] at hactive hquiet
    have htokens := tokens_served_of_quiet env hevents hquiet
    refine h.served_of_le hevents hregistered ?_ ?_
    · intro c'
      have := htokens c'
      omega
    · intro c' _ _ _ hname
      exact hactive.trans hname

/-- A disconnect removes its own name only. -/
theorem Exclusive.gone (h : Exclusive s) (hwired : Wired s)
    {name : String} (hevents : s.events = e :: events) (he : e.event = .clientDisconnected name) :
    Exclusive (s.served env e events) := by
  have hhandle : s.server.handle env s.conns e.event
      = (s.server.handleClientDisconnect name, s.conns) := by
    rw [he]
    rfl
  have hbefore : ∀ c, (s.served env e events).Registered c →
      s.Registered c ∧ (s.conns c).name ≠ name := by
    rintro c ⟨n, client, hclient, rfl⟩
    rw [served_clients, he] at hclient
    have hne : n ≠ name := by
      rintro rfl
      rw [Server.clientsAfter, AList.lookup_erase] at hclient
      cases hclient
    rw [Server.clientsAfter, AList.lookup_erase_ne hne] at hclient
    refine ⟨⟨n, client, hclient, rfl⟩, ?_⟩
    rw [(hwired.announced hclient).2]
    exact hne
  have hconns : (s.served env e events).conns = s.conns := congrArg Prod.snd hhandle
  have htokens := tokens_served_of_same env hevents hconns
  refine h.served_of_le hevents (fun c hr => (hbefore c hr).1) ?_ ?_
  · intro c
    have := htokens c
    omega
  · intro c hr _ _ hname
    have hne : s.server.activeClient ≠ some name := by
      rw [hname]
      exact fun heq => (hbefore c hr).2 (Option.some.inj heq)
    have hkept : s.server.handleClientDisconnect name
        = { s.server with clients := s.server.clients.erase name } := Server.deactivate_of_ne hne
    rw [show (s.served env e events).server = _ from congrArg Prod.fst hhandle, hkept]
    exact hname

/-- A registration: the connection has no token yet. -/
theorem Exclusive.newClient (h : Exclusive s) (hwired : Wired s)
    {c : ConnId} (hevents : s.events = e :: events)
    (he : e = ⟨.handler c, .newClient (s.conns c).name (s.conns c).position
      (s.conns c).screenWidth (s.conns c).screenHeight c⟩) :
    Exclusive (s.served env e events) := by
  have hfresh : s.Fresh c := fresh_of_first hevents (by rw [he])
  have hconns : (s.served env e events).conns = s.conns := by
    rw [he]
    rfl
  have hactive : (s.served env e events).server.activeClient = s.server.activeClient := by
    rw [he]
    rfl
  have htokens := tokens_served_of_same env hevents hconns
  refine ⟨?_, ?_, ?_⟩
  · rw [hconns]
    exact h.distinct
  · intro c' hf
    have hzero := h.fresh c' (fresh_of_served hevents hf)
    have := htokens c'
    omega
  · rintro c' ⟨n, client, hclient, rfl⟩ hlive
    have hcount := htokens client.tx
    rw [hconns] at hlive ⊢
    rw [hactive]
    rcases lookup_of_served hwired hevents hclient with hold | ⟨hsource, _⟩
    · obtain ⟨hone, hholder⟩ := h.single client.tx ⟨n, client, hold, rfl⟩ hlive
      exact ⟨by omega, fun heq => hholder (by omega)⟩
    · have hc : client.tx = c := by
        rw [he] at hsource
        exact (Source.handler.inj hsource).symm
      have hzero := h.fresh client.tx (hc ▸ hfresh)
      exact ⟨by omega, fun heq => by omega⟩

theorem Exclusive.copied (h : Exclusive s) {content : String}
    (hevents : s.events = e :: events) (he : e = ⟨.clipboard, .clipboardChanged content⟩) :
    Exclusive (s.served env e events) := by
  have hquiet : Quiet s.server.clients s.conns (s.served env e events).conns := by
    rw [he]
    exact Server.appends_broadcastClipboard env s.server s.conns content nofun
  have hserver : (s.served env e events).server = s.server := by
    rw [he]
    rfl
  have htokens := tokens_served_of_quiet env hevents hquiet
  have hregistered : ∀ c, (s.served env e events).Registered c → s.Registered c := by
    apply registered_of_served
    rw [he]
    rfl
  refine h.served_of_le hevents hregistered ?_ ?_
  · intro c
    have := htokens c
    omega
  · intro c _ _ _ hname
    rw [hserver]
    exact hname

/-! ## Every step, and every run -/

theorem Exclusive.step {s' : System} {l : Label} (h : Exclusive s) (hcoherent : Coherent s.server)
    (hwired : Wired s) (hguard : s.OneEach l) (hstep : s.Step l s') : Exclusive s' := by
  cases hstep with
  | @accept c config clipboard now₁ now₂ position habsent _ =>
      exact h.accept hwired habsent rfl hguard
  | conn hk => exact h.setConn hk.identity (hk.tokens_le hguard) hk.ended
  | @stopWriter c hwriter hqueue _ =>
      refine h.setConn ⟨rfl, rfl, rfl, rfl, rfl⟩ ?_ ?_
      · apply Nat.le_of_eq
        simp only [Conn.tokens, Conn.toClient, Conn.inHand, hwriter]
      · intro hend
        rw [hwriter] at hend
        cases hend
  | emit hk => exact h.emitted hwired hk
  | capture => exact h.push rfl
  | copied => exact h.push rfl
  | @serve env e events hevents =>
      have hgenuine := hwired.first hevents
      cases hgenuine with
      | input ev => exact h.input hcoherent hwired hevents rfl
      | copied content => exact h.copied hevents rfl
      | newClient c => exact h.newClient hwired hevents rfl
      | message c msg => exact h.message hwired hevents rfl
      | readerGone c => exact h.gone hwired hevents rfl
      | writerGone c cause => exact h.gone hwired hevents rfl

theorem exclusive_new (config : ServerConfig) (clipboard : ClipboardManager) (now : Instant) :
    Exclusive (System.new config clipboard now) := by
  refine ⟨?_, fun _ _ => rfl, ?_⟩
  · intro c c' hc
    exact absurd rfl hc
  · rintro c ⟨name, client, hclient, _⟩
    cases hclient

theorem exclusive_reach {config : ServerConfig} (hsized : config.Sized)
    {G : System → Label → Prop} (hone : ∀ s l, G s l → s.OneEach l)
    (h : (System.lts config).Reach G s) : Exclusive s := by
  refine LTS.Reach.invariant_of (fun _ => sound_reach hsized) ?_ ?_ h
  · rintro _ ⟨clipboard, now, rfl⟩
    exact exclusive_new config clipboard now
  · intro s l s' hs hguard hnext
    exact hs.step hguard.2.coherent hguard.2.wired (hone s l hguard.1) (step_of_next hnext)

/-- Every live client has at most one token, counting the `SwitchToClient` messages on their way to
it, its being active and the `SwitchToServer` messages on their way from it; it has one only while it
is the server's active client. So no two live clients are active at once. -/
theorem at_most_one_holder (config : ServerConfig) (hsized : config.Sized) (s : System)
    (h : (System.lts config).Reach OneEach s) :
    (∀ name client, s.server.clients.lookup name = some client →
      (s.conns client.tx).writer ≠ .ended →
      s.tokens client.tx ≤ 1 ∧
        (s.tokens client.tx = 1 → s.server.activeClient = some name)) ∧
    (∀ name₁ client₁ name₂ client₂,
      s.server.clients.lookup name₁ = some client₁ → (s.conns client₁.tx).writer ≠ .ended →
      s.server.clients.lookup name₂ = some client₂ → (s.conns client₂.tx).writer ≠ .ended →
      (s.conns client₁.tx).client.state.active = true →
      (s.conns client₂.tx).client.state.active = true → name₁ = name₂) := by
  have hwired := (sound_reach hsized h).wired
  have hexclusive := exclusive_reach hsized (fun _ _ => id) h
  have hlive : ∀ name client, s.server.clients.lookup name = some client →
      (s.conns client.tx).writer ≠ .ended →
      s.tokens client.tx ≤ 1 ∧
        (s.tokens client.tx = 1 → s.server.activeClient = some name) := by
    intro name client hclient hwriter
    have hsingle := hexclusive.single client.tx ⟨name, client, hclient, rfl⟩ hwriter
    rw [(hwired.announced hclient).2] at hsingle
    exact hsingle
  have hholder : ∀ name client, s.server.clients.lookup name = some client →
      (s.conns client.tx).writer ≠ .ended → (s.conns client.tx).client.state.active = true →
      s.server.activeClient = some name := by
    intro name client hclient hwriter hactive
    obtain ⟨hone, hname⟩ := hlive name client hclient hwriter
    apply hname
    have hpos : 1 ≤ s.tokens client.tx := by
      unfold tokens Conn.tokens
      rw [hactive, Bool.toNat_true]
      omega
    omega
  refine ⟨hlive, ?_⟩
  intro name₁ client₁ name₂ client₂ h₁ hw₁ h₂ hw₂ ha₁ ha₂
  have heq := (hholder name₁ client₁ h₁ hw₁ ha₁).symm.trans (hholder name₂ client₂ h₂ hw₂ ha₂)
  exact Option.some.inj heq

/-- A laptop connects and is registered, and the cursor is pushed over the edge it is at. -/
def handOver : List Label :=
  let env : Env ConnId := ⟨0, HashOrder.entries ConnId⟩
  [.accept 0 laptop ClipboardManager.new 0 0, .emit 0 .announce, .serve env,
    .capture (.mouseMove (-1000) 0), .serve env]

/-- The laptop of `leftConfig` has connected and is registered. -/
def registered : System :=
  ((System.lts Server.leftConfig).exec (System.new Server.leftConfig ClipboardManager.new 0)
    (handOver.take 3)).getD (System.new Server.leftConfig ClipboardManager.new 0)

/-- A second client, under a name of its own. -/
def tablet : ClientConfig := { laptop with name := "tablet" }

/-- A laptop and a tablet are registered. The cursor is pushed over the left edge, the laptop holds
control, is pushed over its own edge and hands back; then the cursor is pushed over the right edge. -/
def passedAround : List Label :=
  let ms (n : Nat) : Instant := Duration.fromMillis n
  let env (n : Nat) : Env ConnId := ⟨ms n, HashOrder.entries ConnId⟩
  [.accept 0 laptop ClipboardManager.new 0 0, .accept 1 tablet ClipboardManager.new 0 0,
    .emit 0 .announce, .emit 1 .announce, .serve (env 0), .serve (env 0),
    .capture (.mouseMove (-1000) 0), .serve (env 1000), .conn 0 .recv, .conn 0 .written,
    .conn 0 (.batch (ms 1000) [] ⟨ms 1000, ms 1000, ms 1000⟩ true),
    .capture (.mouseMove 1000 0), .serve (env 1300), .conn 0 .recv, .conn 0 .written,
    .conn 0 (.batch (ms 1300) [] ⟨ms 1300, ms 1300, ms 1300⟩ true),
    .capture (.mouseMove 20 0), .serve (env 1700), .conn 0 .recv, .conn 0 .written,
    .conn 0 (.batch (ms 1700) [] ⟨ms 1700, ms 1700, ms 1700⟩ true),
    .emit 0 .readerDeliver, .serve (env 1700),
    .capture (.mouseMove 1000 0), .serve (env 1800), .conn 1 .recv, .conn 1 .written]

set_option maxRecDepth 4000 in
theorem at_most_one_holder_passedAround :
    ∃ s laptop tablet, (System.lts Server.pairConfig).exec
        (System.new Server.pairConfig ClipboardManager.new 0) passedAround = some s ∧
      s.server.clients.lookup "laptop" = some laptop ∧
      s.server.clients.lookup "tablet" = some tablet ∧ s.server.activeClient = some "tablet" ∧
      s.tokens tablet.tx = 1 ∧ s.tokens laptop.tx ≤ 1 ∧
      (s.tokens laptop.tx = 1 → s.server.activeClient = some "laptop") := by
  refine ⟨_, _, _, rfl, rfl, rfl, rfl, rfl, ?_⟩
  have hreach := at_most_one_holder Server.pairConfig ⟨by decide, by decide⟩ _
    ⟨_, passedAround, ⟨ClipboardManager.new, 0, rfl⟩,
      LTS.steps_of_exec rfl ⟨?_, ?_, LTS.guarded_of_forall ?_ _⟩⟩
  · exact hreach.1 "laptop" _ rfl nofun
  · exact fun _ h => absurd rfl h
  · -- the laptop is the only one there, and has another name
    intro c hphase
    by_cases hc : c = 0
    · subst hc
      show "laptop" ≠ "tablet"
      decide
    · rw [conns_setConn_of_ne hc] at hphase
      exact absurd rfl hphase
  · -- nobody else connects
    simp [OneEach, ConnStep.Honest]

end System

end Bluecross
