/-
# Bluecross.Quiescence — left alone, the system comes to rest.

`Internal` are the steps that need nothing from outside: no input, no copy, no new client, no failure.
Each of them moves something on towards its end. A queued message is written, read and applied; what a
client hands back becomes an event; an event is handled and may queue messages to every client. `cost`
prices the stages so that each step costs more than what it leaves, and so every internal run ends
(`internal_runs_end`), however the tasks are scheduled.

The rank of a state is what its connections and its queued events cost together. It counts the
connections that have entered, of which there are finitely many, since a clipboard content goes to
every registered client.
-/
import Bluecross.Holder
import Bluecross.Lib.Settling
import Bluecross.Presses

namespace Bluecross

open Lib (LTS sum_update)

/-! ## Costs -/

/-- The steps that an event takes, itself and what it queues, when `n` clients are registered. -/
def ServerEvent.cost (n : Nat) : ServerEvent ConnId → Nat
  -- motion that is flushed, and the message itself
  | .input _ => 1 + 5 * 2
  | .clientMessage _ msg => if msg.msgType = .clipboardData then 1 + 5 * n else 1
  | .clipboardChanged _ => 1 + 5 * n
  | .newClient .. => 1
  | .clientDisconnected _ => 1

/-- The steps that a message from a client takes. -/
def Message.cost (n : Nat) (msg : Message) : Nat :=
  if msg.msgType = .clipboardData then 2 + 5 * n else 2

/-- What a writer still has before it; a message that is written is on the wire afterwards. -/
def WriterTask.cost : WriterTask → Nat
  | .idle => 3
  | .writing _ => 7
  | .stopping _ => 2
  | .ended => 0

/-- A reader has its report before it. -/
def ReaderTask.cost : ReaderTask → Nat
  | .running => 2
  | .ended => 0

/-- A handler has its announcement before it. -/
def Phase.cost : Phase → Nat
  | .accepted => 2
  | _ => 0

/-- The steps that are left in a connection. A message to the client costs less with each stage of its
way, and the last is the hand-back that it may set off. -/
def Conn.cost (n : Nat) (k : Conn) : Nat :=
  k.phase.cost + 5 * k.queue.length + k.writer.cost + 3 * k.down.length
    + (k.up.map (Message.cost n)).sum + k.reader.cost

theorem Conn.cost_enqueue (n : Nat) (k : Conn) (msg : Message) :
    Conn.cost n { k with queue := k.queue ++ [msg] } = k.cost n + 5 := by
  simp only [Conn.cost, List.length_append, List.length_singleton]
  omega

/-- The steps of a connection that nothing outside has a part in. -/
def ConnStep.Internal : ConnStep → Prop
  | .recv => True
  | .written => True
  | .batch _ _ _ sendOk => sendOk = true
  | _ => False

/-- A message that has moved on costs less. -/
theorem Conn.Step.cost_lt {k k' : Conn} {step : ConnStep} (h : k.Step step k')
    (hinternal : step.Internal) (n : Nat) : k'.cost n < k.cost n := by
  cases h with
  | recv hwriter hqueue =>
      simp only [cost, hwriter, hqueue, List.length_cons, WriterTask.cost]
      omega
  | written hwriter =>
      simp only [cost, hwriter, List.length_append, List.length_singleton, WriterTask.cost]
      omega
  | @batch first rest exit sendOk b wire _ hdown =>
      have hsent : sendOk = true := hinternal
      subst hsent
      have hlength : k.down.length = b.messages.length + wire.length := by
        rw [hdown, List.length_append]
      have hsome : b.messages.length = b.rest.length + 1 := by
        rw [Batch.messages, List.length_cons, List.length_map]
      rcases hback : (k.client.handleBatch b).2 with _ | _
      · rw [takeBatch_kept hback]
        simp only [cost]
        omega
      · rw [takeBatch_back hback]
        have hone : Message.cost n Message.switchToServer = 2 := rfl
        simp only [cost, List.map_append, List.map_cons, List.map_nil, List.sum_append,
          List.sum_cons, List.sum_nil, hone]
        omega
  | failed => exact absurd hinternal id
  | send => exact absurd hinternal id
  | stop => exact absurd hinternal id

/-- An event that is sent costs less than what it was before. -/
theorem Conn.Emits.cost_lt {c : ConnId} {k k' : Conn} {what : Emit} {e : Event}
    (h : k.Emits c what k' e) (n : Nat) : k'.cost n + e.event.cost n < k.cost n := by
  cases h with
  | announce hphase =>
      simp only [Conn.cost, hphase, Phase.cost, ServerEvent.cost]
      omega
  | writerReport hwriter =>
      simp only [Conn.cost, hwriter, WriterTask.cost, ServerEvent.cost]
      omega
  | @readerDeliver msg up _ _ hup =>
      simp only [Conn.cost, hup, List.map_cons, List.sum_cons, Message.cost, ServerEvent.cost]
      split <;> omega
  | readerReport _ hreader =>
      simp only [Conn.cost, hreader, ReaderTask.cost, ServerEvent.cost]
      omega

namespace System

/-- The steps that nothing outside has a part in. A reader reports the end of its stream by itself
once the client is gone and everything it wrote has been read. -/
def Internal (s : System) : Label → Prop
  | .conn _ step => step.Internal
  | .stopWriter _ => True
  | .emit c .readerReport => (s.conns c).running = false ∧ (s.conns c).up = []
  | .emit _ _ => True
  | .serve _ => True
  | _ => False

/-- The cost of the connections `cs` together. -/
def connsCost (cs : List ConnId) (conns : Conns) : Nat :=
  (cs.map fun c => (conns c).cost cs.length).sum

/-- What all the tasks and all the queued events have before them. -/
def rank (cs : List ConnId) (s : System) : Nat :=
  connsCost cs s.conns + (s.events.map fun e => e.event.cost cs.length).sum

/-- The connections that have entered are among these. -/
structure Within (cs : List ConnId) (s : System) : Prop where
  nodup : cs.Nodup
  present : ∀ c, (s.conns c).phase ≠ .absent → c ∈ cs

variable {s s' : System} {cs : List ConnId}

/-- There are no more registered clients than connections. -/
theorem Within.clients_length (h : s.Within cs) (hwired : Wired s) :
    s.server.clients.entries.length ≤ cs.length := by
  have hlookup : ∀ e ∈ s.server.clients.entries, s.server.clients.lookup e.1 = some e.2 :=
    fun e he => AList.mem_lookup_iff.mpr he
  have hnames : (s.server.clients.entries.map fun e => (s.conns e.2.tx).name)
      = s.server.clients.entries.map Sigma.fst := by
    apply List.map_congr_left
    intro e he
    exact (hwired.registered e.1 e.2 (hlookup e he)).2
  -- different names, so different connections
  have hdistinct : (s.server.clients.entries.map fun e => e.2.tx).Nodup := by
    apply List.Nodup.of_map fun c => (s.conns c).name
    rw [List.map_map]
    show (s.server.clients.entries.map fun e => (s.conns e.2.tx).name).Nodup
    rw [hnames]
    exact s.server.clients.nodupKeys
  have hsub : (s.server.clients.entries.map fun e => e.2.tx) ⊆ cs := by
    intro c hc
    obtain ⟨e, he, rfl⟩ := List.mem_map.mp hc
    apply h.present
    rw [(hwired.announced (hlookup e he)).1]
    nofun
  have hlength := (List.subperm_of_subset hdistinct hsub).length_le
  rw [List.length_map] at hlength
  exact hlength

/-! ## What handling an event costs -/

/-- A change of one connection of the family. -/
theorem connsCost_update (h : cs.Nodup) {c : ConnId} (hc : c ∈ cs) (conns : Conns) (k : Conn) :
    connsCost cs (Function.update conns c k) + (conns c).cost cs.length
      = connsCost cs conns + k.cost cs.length :=
  sum_update (Conn.cost cs.length) conns h hc k

end System

namespace Server

variable {s : Server ConnId} {cs : List ConnId}

/-- A message that is sent costs at most what a queued message costs. -/
theorem connsCost_sendTo (hnodup : cs.Nodup)
    (hsenders : ∀ name client, s.clients.lookup name = some client → client.tx ∈ cs) (conns : Conns)
    (name : String) (msg : Message) :
    System.connsCost cs (s.sendTo conns name msg).2 ≤ System.connsCost cs conns + 5 := by
  rcases hclient : s.clients.lookup name with _ | client
  · rw [sendTo_unknown hclient]
    exact Nat.le_add_right _ 5
  · rw [sendTo_registered hclient]
    by_cases hended : (conns client.tx).writer = .ended
    · rw [trySend_ended hended]
      exact Nat.le_add_right _ 5
    · by_cases hroom : (conns client.tx).queue.length < CLIENT_QUEUE
      · rw [trySend_room hended hroom]
        show System.connsCost cs (Function.update conns client.tx _) ≤ _
        have hsum := System.connsCost_update hnodup (hsenders name client hclient) conns
          { conns client.tx with queue := (conns client.tx).queue ++ [msg] }
        rw [Conn.cost_enqueue] at hsum
        omega
      · rw [trySend_full hended hroom]
        exact Nat.le_add_right _ 5

theorem connsCost_sendOrDeactivate (hnodup : cs.Nodup)
    (hsenders : ∀ name client, s.clients.lookup name = some client → client.tx ∈ cs) (conns : Conns)
    (name : String) (msg : Message) :
    System.connsCost cs (s.sendOrDeactivate conns name msg).2 ≤ System.connsCost cs conns + 5 := by
  rw [sendOrDeactivate_snd]
  exact connsCost_sendTo hnodup hsenders conns name msg

theorem connsCost_sendEach (hnodup : cs.Nodup)
    (hsenders : ∀ name client, s.clients.lookup name = some client → client.tx ∈ cs)
    (msg : Message) (conns : Conns) (names : List String) :
    System.connsCost cs (s.sendEach msg conns names)
      ≤ System.connsCost cs conns + 5 * names.length := by
  induction names generalizing conns with
  | nil => exact Nat.le_refl _
  | cons name names ih =>
      have hfirst := connsCost_sendTo hnodup hsenders conns name msg
      have hrest := ih (s.sendTo conns name msg).2
      have hcons : s.sendEach msg conns (name :: names)
          = s.sendEach msg (s.sendTo conns name msg).2 names := rfl
      rw [hcons, List.length_cons]
      omega

theorem connsCost_forwardToActive (hnodup : cs.Nodup)
    (hsenders : ∀ name client, s.clients.lookup name = some client → client.tx ∈ cs) (conns : Conns)
    (msg : Message) (flush : Bool) :
    System.connsCost cs (s.forwardToActive conns msg flush).2
      ≤ System.connsCost cs conns + 5 * 2 := by
  rcases hactive : s.activeClient with _ | name
  · rw [forwardToActive_of_none hactive]
    exact Nat.le_add_right _ _
  · rw [forwardToActive_of_active hactive]
    split
    · have hmotion := connsCost_sendTo (s := s.setPending 0 0) hnodup hsenders conns name
        (Message.mouseMove s.mouseX s.mouseY s.pendingDx s.pendingDy)
      simp only
      split
      · have hmsg := connsCost_sendOrDeactivate (s := s.setPending 0 0) hnodup hsenders
          ((s.setPending 0 0).sendTo conns name
            (Message.mouseMove s.mouseX s.mouseY s.pendingDx s.pendingDy)).2 name msg
        omega
      · show System.connsCost cs ((s.setPending 0 0).sendTo conns name _).2 ≤ _
        omega
    · have hmsg := connsCost_sendOrDeactivate hnodup hsenders conns name msg
      omega

theorem length_names (env : Env ConnId) (s : Server ConnId) :
    (s.names env).length = s.clients.entries.length := by
  rw [names, List.length_map, (env.order.2 s.clients).length_eq, List.length_map]

/-- What an event queues costs less than the event. -/
theorem connsCost_handle (hnodup : cs.Nodup)
    (hsenders : ∀ name client, s.clients.lookup name = some client → client.tx ∈ cs)
    (hcount : s.clients.entries.length ≤ cs.length) (env : Env ConnId) (conns : Conns)
    (event : ServerEvent ConnId) :
    System.connsCost cs (s.handle env conns event).2
      < System.connsCost cs conns + event.cost cs.length := by
  have hnames := length_names env s
  cases event with
  | newClient name position w hgt tx => exact Nat.lt_add_of_pos_right Nat.zero_lt_one
  | clientDisconnected name => exact Nat.lt_add_of_pos_right Nat.zero_lt_one
  | clipboardChanged content =>
      show System.connsCost cs (s.broadcastClipboard env conns content) < _ + (1 + 5 * cs.length)
      unfold broadcastClipboard
      split
      · omega
      · have heach := connsCost_sendEach hnodup hsenders (Message.clipboardData content) conns
          (s.names env)
        omega
  | clientMessage name msg =>
      show System.connsCost cs (s.handleClientMessage env conns name msg).2
        < _ + (if msg.msgType = .clipboardData then 1 + 5 * cs.length else 1)
      unfold handleClientMessage
      split
      · rename_i htype
        have hnot : msg.msgType ≠ .clipboardData := by
          rw [htype]
          nofun
        rw [if_neg hnot]
        split <;> exact Nat.lt_add_of_pos_right Nat.zero_lt_one
      · rename_i htype
        rw [if_pos htype]
        split
        · rename_i content _
          have hothers := List.length_filter_le (fun n => decide (n ≠ name)) (s.names env)
          have heach := connsCost_sendEach
            (s := { s with clipboard := s.clipboard.set content }) hnodup hsenders
            (Message.clipboardData content) conns ((s.names env).filter fun n => n ≠ name)
          refine Nat.lt_of_le_of_lt heach ?_
          omega
        · exact Nat.lt_add_of_pos_right (by omega)
      · rename_i hne
        rw [if_neg hne]
        exact Nat.lt_add_of_pos_right Nat.zero_lt_one
  | input ev =>
      show System.connsCost cs (s.handleInput env conns ev).2 < _ + (1 + 5 * 2)
      cases ev with
      | key code value =>
          have hforward := connsCost_forwardToActive hnodup hsenders conns
            (Message.keyEvent code value) true
          exact Nat.lt_of_le_of_lt hforward (by omega)
      | mouseButton code value =>
          have hforward := connsCost_forwardToActive hnodup hsenders conns
            (Message.mouseButton code value) true
          exact Nat.lt_of_le_of_lt hforward (by omega)
      | mouseScroll dx dy =>
          have hforward := connsCost_forwardToActive hnodup hsenders conns
            (Message.mouseScroll dx dy) false
          exact Nat.lt_of_le_of_lt hforward (by omega)
      | mouseMove dx dy =>
          unfold handleInput
          simp only
          split
          · rename_i n _
            rw [forwardMotion_eq]
            simp only
            split
            · have hmotion := connsCost_sendTo
                (s := (s.moveCursor dx dy).setPending ((s.moveCursor dx dy).pendingDx + dx)
                  ((s.moveCursor dx dy).pendingDy + dy)) hnodup hsenders conns n
                (Message.mouseMove (s.moveCursor dx dy).mouseX (s.moveCursor dx dy).mouseY
                  ((s.moveCursor dx dy).pendingDx + dx) ((s.moveCursor dx dy).pendingDy + dy))
              split <;> exact Nat.lt_of_le_of_lt hmotion (by omega)
            · exact Nat.lt_add_of_pos_right (by omega)
          · split
            · rename_i name x y _
              rw [switchTo_eq]
              have hswitch := connsCost_sendOrDeactivate
                (s := (s.moveCursor dx dy).handedOver name) hnodup hsenders conns name
                (Message.switchToClient x y)
              exact Nat.lt_of_le_of_lt hswitch (by omega)
            · exact Nat.lt_add_of_pos_right (by omega)

end Server

namespace System

variable {s s' : System} {cs : List ConnId} {config : ServerConfig}

/-! ## Every internal run ends -/

/-- Only a connection that is accepted is new. -/
theorem Within.step {l : Label} (h : s.Within cs) (hstep : s.Step l s')
    (hnew : ∀ c config clipboard now₁ now₂, l = .accept c config clipboard now₁ now₂ → c ∈ cs) :
    s'.Within cs := by
  refine ⟨h.nodup, ?_⟩
  have hset : ∀ {c : ConnId} {k : Conn}, (k.phase ≠ .absent → (s.conns c).phase ≠ .absent ∨ c ∈ cs) →
      ∀ c', ((s.setConn c k).conns c').phase ≠ .absent → c' ∈ cs := by
    intro c k hk c' hpresent
    by_cases heq : c' = c
    · rw [heq, conns_setConn_self] at hpresent
      rw [heq]
      exact (hk hpresent).elim (h.present c) id
    · rw [conns_setConn_of_ne heq] at hpresent
      exact h.present c' hpresent
  cases hstep with
  | accept => exact hset fun _ => Or.inr (hnew _ _ _ _ _ rfl)
  | capture => exact h.present
  | copied => exact h.present
  | conn hk => exact hset fun hpresent => Or.inl (hk.identity.phase ▸ hpresent)
  | stopWriter => exact hset Or.inl
  | emit hk =>
      refine hset fun hpresent => Or.inl ?_
      cases hk with
      | announce hphase =>
          rw [hphase]
          nofun
      | writerReport => exact hpresent
      | readerDeliver => exact hpresent
      | readerReport => exact hpresent
  | serve =>
      intro c hpresent
      exact h.present c ((served_identity c).phase ▸ hpresent)

theorem Within.cons (h : s.Within cs) {c : ConnId} (hc : c ∉ cs) : s.Within (c :: cs) :=
  ⟨List.nodup_cons.mpr ⟨hc, h.nodup⟩, fun c' hpresent => List.mem_cons_of_mem c (h.present c' hpresent)⟩

/-- Finitely many connections have entered. -/
theorem within_reach {G : System → Label → Prop} (h : (System.lts config).Reach G s) :
    ∃ cs, s.Within cs := by
  refine LTS.Reach.invariant (I := fun s => ∃ cs, s.Within cs) ?_ ?_ h
  · rintro _ ⟨clipboard, now, rfl⟩
    exact ⟨[], List.nodup_nil, fun c hpresent => absurd rfl hpresent⟩
  · rintro s l s' ⟨cs, hcs⟩ _ hnext
    have hstep := step_of_next hnext
    have hgrown : ∃ cs', s.Within cs' ∧
        ∀ c config clipboard now₁ now₂, l = .accept c config clipboard now₁ now₂ → c ∈ cs' := by
      cases hstep with
      | @accept c =>
          by_cases hc : c ∈ cs
          · refine ⟨cs, hcs, ?_⟩
            rintro _ _ _ _ _ ⟨⟩
            exact hc
          · refine ⟨c :: cs, hcs.cons hc, ?_⟩
            rintro _ _ _ _ _ ⟨⟩
            exact List.mem_cons_self ..
      | capture => exact ⟨cs, hcs, nofun⟩
      | copied => exact ⟨cs, hcs, nofun⟩
      | conn => exact ⟨cs, hcs, nofun⟩
      | stopWriter => exact ⟨cs, hcs, nofun⟩
      | emit => exact ⟨cs, hcs, nofun⟩
      | serve => exact ⟨cs, hcs, nofun⟩
    obtain ⟨cs', hcs', hnew⟩ := hgrown
    exact ⟨cs', hcs'.step hstep hnew⟩

/-- Internal steps of a connection are steps of one that has entered: to another one nothing has been
sent. -/
theorem Wired.present_of_step (h : Wired s) {c : ConnId} {step : ConnStep} {k : Conn}
    (hinternal : step.Internal) (hk : (s.conns c).Step step k) : (s.conns c).phase ≠ .absent := by
  intro habsent
  have huntouched := h.untouched c (Or.inl (by rw [habsent]; nofun))
  cases hk with
  | recv _ hqueue => cases huntouched.queue.symm.trans hqueue
  | written hwriter => cases huntouched.writer.symm.trans hwriter
  | batch _ hdown => cases huntouched.down.symm.trans hdown
  | failed => exact hinternal
  | send => exact hinternal
  | stop => exact hinternal

theorem Wired.present_of_emits (h : Wired s) {c : ConnId} {what : Emit} {k : Conn} {e : Event}
    (hk : (s.conns c).Emits c what k e) : (s.conns c).phase ≠ .absent := by
  intro habsent
  cases hk with
  | announce hphase => cases habsent.symm.trans hphase
  | writerReport hwriter =>
      have huntouched := h.untouched c (Or.inl (by rw [habsent]; nofun))
      cases huntouched.writer.symm.trans hwriter
  | readerDeliver hphase => cases habsent.symm.trans hphase
  | readerReport hphase => cases habsent.symm.trans hphase

theorem present_of_unsent {c : ConnId} (hdead : s.senderAlive c = false) :
    (s.conns c).phase ≠ .absent := by
  intro habsent
  have halive : s.senderAlive c = true :=
    (senderAlive_iff s c).mpr (Or.inl (Or.inl (by rw [habsent]; nofun)))
  rw [hdead] at halive
  cases halive

/-- Where the registered clients are among the connections, so are their senders. -/
theorem Within.senders (h : s.Within cs) (hwired : Wired s) (name : String)
    (client : ClientInfo ConnId) (hclient : s.server.clients.lookup name = some client) :
    client.tx ∈ cs := by
  apply h.present
  rw [(hwired.announced hclient).1]
  nofun

theorem rank_lt {l : Label} (h : s.Within cs) (hwired : Wired s) (hinternal : s.Internal l)
    (hstep : s.Step l s') : s'.rank cs < s.rank cs := by
  cases hstep with
  | accept => exact absurd hinternal id
  | capture => exact absurd hinternal id
  | copied => exact absurd hinternal id
  | @conn c step k hk =>
      have hc := h.present c (hwired.present_of_step hinternal hk)
      have hless := hk.cost_lt hinternal cs.length
      have hsum := connsCost_update h.nodup hc s.conns k
      refine Nat.add_lt_add_right ?_ _
      show connsCost cs (Function.update s.conns c k) < _
      omega
  | @stopWriter c hwriter hqueue hdead =>
      have hc := h.present c (present_of_unsent hdead)
      have hsum := connsCost_update h.nodup hc s.conns
        { s.conns c with writer := .stopping .senderDropped }
      have hless : Conn.cost cs.length { s.conns c with writer := .stopping .senderDropped }
          < (s.conns c).cost cs.length := by
        simp only [Conn.cost, hwriter, WriterTask.cost]
        omega
      refine Nat.add_lt_add_right ?_ _
      show connsCost cs (Function.update s.conns c _) < _
      omega
  | @emit c what k e hk =>
      have hc := h.present c (hwired.present_of_emits hk)
      have hless := hk.cost_lt cs.length
      have hsum := connsCost_update h.nodup hc s.conns k
      have hpushed : ((s.setConn c k).push e).rank cs
          = connsCost cs (Function.update s.conns c k)
            + ((s.events.map fun e => e.event.cost cs.length).sum + e.event.cost cs.length) := by
        simp only [rank, System.push, setConn, List.map_append, List.map_cons, List.map_nil,
          List.sum_append, List.sum_cons, List.sum_nil]
        omega
      rw [hpushed]
      show _ < connsCost cs s.conns + _
      omega
  | @serve env e events hevents =>
      have hhandled := Server.connsCost_handle h.nodup (h.senders hwired) (h.clients_length hwired) env s.conns
        e.event
      show connsCost cs (s.server.handle env s.conns e.event).2
        + (events.map fun e => e.event.cost cs.length).sum < connsCost cs s.conns + _
      rw [hevents, List.map_cons, List.sum_cons]
      omega

/-- Internal steps keep what is known of the state and lower its rank. -/
theorem internal_lowers (config : ServerConfig) (hsized : config.Sized) (cs : List ConnId) :
    LTS.Lowers (System.lts config) Internal (fun s => Sound config s ∧ s.Within cs) (rank cs) := by
  refine ⟨?_, ?_⟩
  · rintro s l s' ⟨hsound, hwithin⟩ hinternal hnext
    have hstep := step_of_next hnext
    refine ⟨hsound.step hsized hstep, hwithin.step hstep ?_⟩
    rintro c config clipboard now₁ now₂ rfl
    exact absurd hinternal id
  · rintro s l s' ⟨hsound, hwithin⟩ hinternal hnext
    exact rank_lt hwithin hsound.wired hinternal (step_of_next hnext)

/-- Left alone, the system comes to rest: however its tasks are scheduled, there is a bound on the
steps they can take, and they do not stop before none is possible. -/
theorem internal_runs_end (config : ServerConfig) (hsized : config.Sized) (s : System)
    (h : (System.lts config).Reach LTS.anyStep s) :
    (∃ bound, ∀ ls t, LTS.Steps (System.lts config) Internal s ls t → ls.length ≤ bound) ∧
    ∃ ls t, LTS.Steps (System.lts config) Internal s ls t ∧
      LTS.Settled (System.lts config) Internal t := by
  obtain ⟨cs, hwithin⟩ := within_reach h
  have hlowers := internal_lowers config hsized cs
  have hstart := And.intro (sound_reach hsized h) hwithin
  refine ⟨⟨s.rank cs, ?_⟩, hlowers.settles hstart⟩
  intro ls t hsteps
  have hlength := hlowers.length_le hsteps hstart
  omega

/-- The `SwitchToClient` of a handover is on its way, and arrives. -/
theorem internal_runs_end_handOver :
    ∃ s, (System.lts Server.leftConfig).exec
        (System.new Server.leftConfig ClipboardManager.new 0) handOver = some s ∧
      (s.conns 0).queue ≠ [] ∧
      ∃ ls t, LTS.Steps (System.lts Server.leftConfig) Internal s ls t ∧
        LTS.Settled (System.lts Server.leftConfig) Internal t :=
  ⟨_, rfl, nofun, (internal_runs_end Server.leftConfig ⟨by decide, by decide⟩ _
    ⟨_, handOver, ⟨ClipboardManager.new, 0, rfl⟩,
      LTS.steps_of_exec rfl (LTS.guarded_anyStep _ _)⟩).2⟩

end System

end Bluecross
