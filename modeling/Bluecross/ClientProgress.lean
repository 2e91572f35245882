/-
# Bluecross.ClientProgress — the tasks of a client never wait for each other.

A reader that finds the channel full waits for the main task, and the main task waits for the reader
when the channel is empty. Neither can happen for ever: while the loop runs some step of the tasks is
possible, each step lowers `cost`, and when nothing more is written to a client and its stream ends, its
tasks come to an end with the loop left and the devices closed (`client_ends`).

While the connection lasts, what was written is applied once and in order, whatever the pace of the
tasks (`applied_in_order`): the client is always the one after whole batches and the part of a batch that
is done, and these messages, those under way and those still on the wire are together the messages there
were.
-/
import Bluecross.ClientProgram
import Bluecross.Lib.Settling
import Bluecross.MotionOrder
import Bluecross.ServerControl

namespace Bluecross

open Lib (LTS)

namespace ClientTasks

/-- The tasks of one client with its connection. -/
def lts : LTS (Conn × ClientTasks) TaskStep where
  init p := p.1.running = true ∧ p.2 = new
  next p step := p.2.next p.1 step

/-- The steps that only bring messages on their way, and the loss of the connection. -/
def Working (_ : Conn × ClientTasks) : TaskStep → Prop
  | .copied _ => False
  | .heartbeat _ => False
  | .clip _ => False
  | .signal => False
  | _ => True

variable {p p' : Conn × ClientTasks} {step : TaskStep}

/-! ## The tasks come to an end -/

/-- The steps that the reader will take with what it has. -/
def readerCost : ClientReader → Nat
  | .receiving => 1
  | .first _ => 5
  | .collecting => 2
  | .rest _ msgs => 3 * msgs.length + 4
  | .ended => 0

theorem readerCost_forwarding (msgs : List Message) :
    readerCost (.forwarding msgs) = 3 * msgs.length + 1 := by
  cases msgs with
  | nil => rfl
  | cons msg msgs =>
      show 3 * msgs.length + 4 = 3 * (msgs.length + 1) + 1
      omega

/-- A batch has its end still before it. -/
def mainCost : MainTask → Nat
  | .selecting => 0
  | .draining _ => 1

/-- A bound on the steps that are left. -/
def cost (p : Conn × ClientTasks) : Nat :=
  6 * p.1.down.length + readerCost p.2.reader + 2 * p.2.channel.length + mainCost p.2.main
    + p.1.running.toNat

/-- The loop runs, or it was left and the devices are closed. -/
def EndsClosed (k : Conn) : Prop :=
  k.running = true ∨ k.client.injector.keyboard = false ∧ k.client.injector.mouse = false

theorem endsClosed_clientWrites {k : Conn} (h : EndsClosed k) (msg : Message) (sendOk : Bool) :
    EndsClosed (k.clientWrites msg sendOk) := by
  cases sendOk with
  | true => exact h
  | false => exact Or.inr ⟨rfl, rfl⟩

theorem endsClosed_afterBatch {k : Conn} (h : k.running = true) (exit : ExitClock)
    (total : Int32 × Int32) (sendOk : Bool) : EndsClosed (k.afterBatch exit total sendOk) := by
  have hclient : EndsClosed { k with client := (k.client.useMotion exit total).1 } := Or.inl h
  unfold Conn.afterBatch
  simp only
  split
  · exact endsClosed_clientWrites hclient _ sendOk
  · exact hclient

theorem down_afterBatch (k : Conn) (exit : ExitClock) (total : Int32 × Int32) (sendOk : Bool) :
    (k.afterBatch exit total sendOk).down = k.down := by
  unfold Conn.afterBatch
  simp only
  split
  · cases sendOk <;> rfl
  · rfl

/-- A step keeps what is left closed; it needs the loop to run. -/
theorem Step.endsClosed {t t' : ClientTasks} {k k' : Conn} (h : t.Step k step k' t') :
    EndsClosed k' := by
  cases h with
  | received hrunning _ _ => exact Or.inl hrunning
  | passedFirst hrunning _ _ => exact Or.inl hrunning
  | passedRest hrunning _ _ => exact Or.inl hrunning
  | buffered hrunning _ => exact Or.inl hrunning
  | streamEnds hrunning _ => exact Or.inl hrunning
  | copied hrunning _ _ => exact Or.inl hrunning
  | heartbeat hrunning _ => exact endsClosed_clientWrites (Or.inl hrunning) _ _
  | clip hrunning _ _ => exact endsClosed_clientWrites (Or.inl hrunning) _ _
  | recv hrunning _ _ => exact Or.inl hrunning
  | tryRecv hrunning _ _ => exact Or.inl hrunning
  | drained hrunning _ _ => exact endsClosed_afterBatch hrunning _ _ _
  | lost => exact Or.inr ⟨rfl, rfl⟩
  | signal => exact Or.inr ⟨rfl, rfl⟩

theorem working_lowers : LTS.Lowers lts Working (fun p => EndsClosed p.1) cost := by
  constructor
  · rintro ⟨k, t⟩ step ⟨k', t'⟩ _ _ hnext
    exact (step_of_next hnext).endsClosed
  · rintro ⟨k, t⟩ step ⟨k', t'⟩ _ hworking hnext
    have hstep : t.Step k step k' t' := step_of_next hnext
    cases hstep with
    | received _ hreader hdown =>
        simp [cost, hreader, hdown, readerCost]
        omega
    | passedFirst _ _ hreader =>
        simp [cost, hreader, readerCost]
        omega
    | passedRest _ _ hreader =>
        simp [cost, hreader, readerCost_forwarding]
        simp [readerCost]
        omega
    | buffered _ hreader =>
        simp [cost, hreader, readerCost_forwarding]
        simp [readerCost]
        omega
    | streamEnds _ hreader => simp [cost, hreader, readerCost]
    | copied _ _ _ => cases hworking
    | heartbeat _ _ => cases hworking
    | clip _ _ _ => cases hworking
    | recv _ hmain hchannel =>
        simp [cost, hmain, hchannel, mainCost]
        omega
    | tryRecv _ hmain hchannel => simp [cost, hmain, hchannel, mainCost]
    | @drained exit sendOk total hrunning hmain hchannel =>
        have hle : (k.afterBatch exit total sendOk).running.toNat ≤ 1 := Bool.toNat_le _
        simp [cost, hmain, hchannel, mainCost, down_afterBatch, hrunning]
        omega
    | lost hrunning hmain hchannel hreader => simp [cost, Conn.stopClient, hrunning]
    | signal _ _ => cases hworking

/-- A running loop takes the step. -/
theorem next_running {k : Conn} (hrunning : k.running = true) (x : Option (Conn × ClientTasks)) :
    (if ¬ k.running = true then none else x) = x :=
  if_neg fun hstopped => hstopped hrunning

/-- While the loop runs, some step is possible. -/
theorem exists_working (hrunning : p.1.running = true) :
    ∃ step p', Working p step ∧ lts.next p step = some p' := by
  obtain ⟨k, ⟨reader, channel, clips, main⟩⟩ := p
  have hgo := next_running (k := k) hrunning
  rcases channel with _ | ⟨msg, channel⟩
  · rcases main with _ | total
    · -- nothing to do for the main task: the reader goes on, or the connection is lost
      rcases reader with _ | msg | _ | ⟨msg, msgs⟩ | _
      · exact ⟨.streamEnds, _, trivial, (hgo _).trans rfl⟩
      · exact ⟨.passed, _, trivial, (hgo _).trans rfl⟩
      · exact ⟨.buffered 0, _, trivial, (hgo _).trans rfl⟩
      · exact ⟨.passed, _, trivial, (hgo _).trans rfl⟩
      · exact ⟨.lost, _, trivial, (hgo _).trans rfl⟩
    · exact ⟨.drained ⟨0, 0, 0⟩ true, _, trivial, (hgo _).trans rfl⟩
  · rcases main with _ | total
    · exact ⟨.recv 0, _, trivial, (hgo _).trans rfl⟩
    · exact ⟨.tryRecv 0, _, trivial, (hgo _).trans rfl⟩

/-- Wherever the tasks of a client are, when nothing more is written to it and its stream ends: their
steps come to an end within `cost`, however they are scheduled, and where no step is possible the main
loop was left and both devices are closed. -/
theorem client_ends (k : Conn) (t : ClientTasks) (hrunning : k.running = true) :
    (∀ ls p, LTS.Steps lts Working (k, t) ls p → ls.length ≤ cost (k, t)) ∧
    (∃ ls p, LTS.Steps lts Working (k, t) ls p ∧ LTS.Settled lts Working p) ∧
    (∀ ls p, LTS.Steps lts Working (k, t) ls p → LTS.Settled lts Working p →
      p.1.running = false ∧ p.1.client.injector.keyboard = false ∧
        p.1.client.injector.mouse = false) := by
  have hstart : EndsClosed k := Or.inl hrunning
  refine ⟨?_, working_lowers.settles hstart, ?_⟩
  · intro ls p hsteps
    have hlength := working_lowers.length_le hsteps hstart
    omega
  · intro ls p hsteps hsettled
    have hends : EndsClosed p.1 :=
      hsteps.invariant (I := fun p => EndsClosed p.1) working_lowers.keeps hstart
    rcases hends with hon | hclosed
    · obtain ⟨step, p', hworking, hnext⟩ := exists_working hon
      exact absurd hnext (hsettled step p' hworking)
    · refine ⟨?_, hclosed⟩
      by_contra hon
      obtain ⟨step, p', hworking, hnext⟩ := exists_working (by simpa using hon)
      exact absurd hnext (hsettled step p' hworking)

end ClientTasks

namespace ClientTasks

/-- The laptop has two messages to read. -/
def twoWaiting : Conn :=
  { Conn.accepted Server.leftConfig laptop .left ClipboardManager.new 0 0 with
    down := [Message.switchToClient 10 10, Message.keyEvent 30 1] }

theorem client_ends_twoWaiting :
    ∃ ls p, LTS.Steps lts Working (twoWaiting, new) ls p ∧ p.1.running = false := by
  obtain ⟨_, ⟨ls, p, hsteps, hsettled⟩, hclosed⟩ := client_ends twoWaiting new rfl
  exact ⟨ls, p, hsteps, (hclosed ls p hsteps hsettled).1⟩

end ClientTasks

/-! ## What was written is applied -/

namespace Client

/-- The messages that hand control back at the ends of batches. -/
def handBacks : Client → List Batch → List Message
  | _, [] => []
  | c, b :: bs =>
      (if (c.handleBatch b).2 then [Message.switchToServer] else [])
        ++ handBacks (c.handleBatch b).1 bs

theorem handleBatches_concat (c : Client) (bs : List Batch) (b : Batch) :
    c.handleBatches (bs ++ [b]) = ((c.handleBatches bs).handleBatch b).1 := by
  simp [handleBatches]

theorem handBacks_concat (c : Client) (bs : List Batch) (b : Batch) :
    c.handBacks (bs ++ [b]) = c.handBacks bs
      ++ if ((c.handleBatches bs).handleBatch b).2 then [Message.switchToServer] else [] := by
  induction bs generalizing c with
  | nil => exact List.append_nil _
  | cons first bs ih =>
      show _ ++ handBacks (c.handleBatch first).1 (bs ++ [b]) = _
      rw [ih, ← List.append_assoc]
      rfl

end Client

namespace ClientTasks

variable {p p' : Conn × ClientTasks} {step : TaskStep}

/-- Batches were taken whole and one is under way; with what is still to come they are the messages
there were, and the hand-backs that were written are theirs. -/
structure Applied (k₀ : Conn) (p : Conn × ClientTasks) (bs : List Batch) (u : Underway) : Prop where
  reached : p.2.Reached p.1 u
  client : k₀.client.handleBatches bs = u.start
  messages : bs.flatMap Batch.messages ++ (p.2.front u ++ p.1.down) = k₀.down
  handBacks : p.1.up.filter Message.isHandBack
    = k₀.up.filter Message.isHandBack ++ k₀.client.handBacks bs

/-- A step of a loop that goes on takes a batch at most. -/
theorem Applied.next {k₀ : Conn} {bs : List Batch} {u : Underway} (h : Applied k₀ p bs u)
    (hnext : lts.next p step = some p') (hrunning : p'.1.running = true) :
    ∃ bs' u', Applied k₀ p' bs' u' := by
  obtain ⟨k, t⟩ := p
  obtain ⟨k', t'⟩ := p'
  obtain ⟨u', hreached, hfollows⟩ := follows (step_of_next hnext) h.reached
  have hdown : (t'.mirror k' u').down = t'.front u' ++ k'.down := rfl
  have hup : (t'.mirror k' u').up = k'.up := rfl
  have hstart : (t'.mirror k' u').client = u'.start := rfl
  have hon : (t'.mirror k' u').running = true := hrunning
  generalize t'.mirror k' u' = m at hfollows hdown hup hstart hon
  cases hfollows with
  | same =>
      refine ⟨bs, u', hreached, ?_, ?_, ?_⟩
      · exact h.client.trans hstart
      · rw [← hdown]
        exact h.messages
      · rw [← hup]
        exact h.handBacks
  | step cs hclient honest hstep =>
      cases Conn.step_of_next hstep with
      | recv _ _ => cases hclient
      | written _ => cases hclient
      | failed _ => cases hclient
      | stop _ => cases hon
      | @send msg _ =>
          have hnone : [msg].filter Message.isHandBack = [] := by
            rcases honest with htype | htype <;> simp [Message.isHandBack, htype]
          refine ⟨bs, u', hreached, ?_, ?_, ?_⟩
          · exact h.client.trans hstart
          · rw [← hdown]
            exact h.messages
          · rw [← hup]
            show (k.up ++ [msg]).filter Message.isHandBack = _
            rw [List.filter_append, hnone, List.append_nil]
            exact h.handBacks
      | @batch first rest exit sendOk b wire _ htaken =>
          have hmessages : (bs ++ [b]).flatMap Batch.messages ++ wire = k₀.down := by
            rw [← h.messages]
            show _ = bs.flatMap Batch.messages ++ (t.mirror k u).down
            rw [htaken, List.flatMap_append, List.append_assoc]
            simp
          have hlast := k₀.client.handBacks_concat bs b
          rw [h.client] at hlast
          have hclient' := k₀.client.handleBatches_concat bs b
          rw [h.client] at hclient'
          have hmirror : (t.mirror k u).client = u.start := rfl
          rcases hback : (u.start.handleBatch b).2 with _ | _
          · rw [Conn.takeBatch_kept (by rw [hmirror]; exact hback)] at hdown hup hstart
            refine ⟨bs ++ [b], u', hreached, ?_, ?_, ?_⟩
            · exact hclient'.trans hstart
            · rw [← hdown]
              exact hmessages
            · rw [← hup, hlast, hback]
              show k.up.filter Message.isHandBack = _ ++ (k₀.client.handBacks bs ++ [])
              rw [List.append_nil]
              exact h.handBacks
          · cases sendOk with
            | true =>
                rw [Conn.takeBatch_back (by rw [hmirror]; exact hback)] at hdown hup hstart
                refine ⟨bs ++ [b], u', hreached, ?_, ?_, ?_⟩
                · exact hclient'.trans hstart
                · rw [← hdown]
                  exact hmessages
                · have hone : [Message.switchToServer].filter Message.isHandBack
                      = [Message.switchToServer] := rfl
                  rw [← hup, hlast, hback]
                  show (k.up ++ [Message.switchToServer]).filter Message.isHandBack = _
                  rw [List.filter_append, hone, h.handBacks, List.append_assoc]
                  rfl
            | false =>
                rw [Conn.takeBatch_failed (by rw [hmirror]; exact hback)] at hon
                cases hon

/-- A step is taken by a loop that runs. -/
theorem running_of_next (h : lts.next p step = some p') : p.1.running = true := by
  obtain ⟨k, t⟩ := p
  obtain ⟨k', t'⟩ := p'
  cases step_of_next h <;> assumption

theorem applied_steps {k₀ : Conn} {ls : List TaskStep} (h : LTS.Steps lts LTS.anyStep p ls p')
    (hp : ∃ bs u, Applied k₀ p bs u) (hrunning : p'.1.running = true) :
    ∃ bs u, Applied k₀ p' bs u := by
  induction h with
  | nil => exact hp
  | @cons p q p' a as _ hnext hrest ih =>
      refine ih ?_ hrunning
      -- the loop still runs behind this step
      have hon : q.1.running = true := by
        cases hrest with
        | nil => exact hrunning
        | cons _ hnext' _ => exact running_of_next hnext'
      obtain ⟨bs, u, happlied⟩ := hp
      exact happlied.next hnext hon

/-- The steps that bring messages on their way while the connection lasts. -/
def Delivering (_ : Conn × ClientTasks) : TaskStep → Prop
  | .received => True
  | .passed => True
  | .buffered _ => True
  | .recv _ => True
  | .tryRecv _ => True
  | .drained _ sendOk => sendOk = true
  | _ => False

/-- Where nothing is left to deliver, the wire, the reader and the channel are empty and the main task
waits. -/
theorem drained_of_settled (hsettled : LTS.Settled lts Delivering p) (hrunning : p.1.running = true)
    (hreader : p.2.reader ≠ .ended) :
    p.1.down = [] ∧ p.2.reader.held = [] ∧ p.2.channel = [] ∧ p.2.main = .selecting := by
  obtain ⟨k, ⟨reader, channel, clips, main⟩⟩ := p
  have hgo := next_running (k := k) hrunning
  rcases channel with _ | ⟨msg, channel⟩
  · rcases main with _ | total
    · rcases reader with _ | msg | _ | ⟨msg, msgs⟩ | _
      · rcases hdown : k.down with _ | ⟨msg, down⟩
        · exact ⟨rfl, rfl, rfl, rfl⟩
        · have hnext : lts.next (k, ⟨.receiving, [], clips, .selecting⟩) .received
              = some ({ k with down := down }, ⟨.first msg, [], clips, .selecting⟩) := by
            refine (hgo _).trans ?_
            simp only [hdown]
          exact absurd hnext (hsettled _ _ trivial)
      · exact absurd ((hgo _).trans rfl) (hsettled .passed _ trivial)
      · exact absurd ((hgo _).trans rfl) (hsettled (.buffered 0) _ trivial)
      · exact absurd ((hgo _).trans rfl) (hsettled .passed _ trivial)
      · exact absurd rfl hreader
    · exact absurd ((hgo _).trans rfl) (hsettled (.drained ⟨0, 0, 0⟩ true) _ rfl)
  · rcases main with _ | total
    · exact absurd ((hgo _).trans rfl) (hsettled (.recv 0) _ trivial)
    · exact absurd ((hgo _).trans rfl) (hsettled (.tryRecv 0) _ trivial)

theorem settled_of_waiting (hdown : p.1.down = []) (hreader : p.2.reader = .receiving)
    (hchannel : p.2.channel = []) (hmain : p.2.main = .selecting) : LTS.Settled lts Delivering p := by
  obtain ⟨k, t⟩ := p
  rintro step ⟨k', t'⟩ hguard hnext
  cases step_of_next hnext <;> simp_all [Delivering]

/-- While a client runs, whatever the pace of its tasks: its client is the one after whole batches and
what is done of the batch under way, these messages and those between wire and client are together and
in order the messages there were, and the hand-backs it has written are exactly those of the batches.
When nothing is left to deliver and the reader lives, every message has been applied. -/
theorem applied_in_order (k₀ : Conn) {ls : List TaskStep}
    (h : LTS.Steps lts LTS.anyStep (k₀, new) ls p) (hrunning : p.1.running = true) :
    ∃ bs u, Applied k₀ p bs u ∧
      (LTS.Settled lts Delivering p → p.2.reader ≠ .ended →
        bs.flatMap Batch.messages = k₀.down ∧ k₀.client.handleBatches bs = p.1.client) := by
  have hstart : Applied k₀ (k₀, new) [] ⟨[], k₀.client⟩ :=
    ⟨rfl, rfl, rfl, (List.append_nil _).symm⟩
  obtain ⟨bs, u, happlied⟩ := applied_steps h ⟨_, _, hstart⟩ hrunning
  refine ⟨bs, u, happlied, ?_⟩
  intro hsettled hreader
  obtain ⟨hdown, hheld, hchannel, hmain⟩ := drained_of_settled hsettled hrunning hreader
  have hu := happlied.reached
  simp only [Reached, hmain] at hu
  subst hu
  refine ⟨?_, happlied.client⟩
  have hmessages := happlied.messages
  simpa [front, hdown, hheld, hchannel] using hmessages

/-- The reader forwards the second message while the main task is at the first. -/
def bothApplied : List TaskStep :=
  [.received, .passed, .buffered 1, .recv 1, .passed, .tryRecv 2, .drained ⟨3, 3, 3⟩ true]

theorem exec_bothApplied :
    ∃ k, lts.exec (twoWaiting, new) bothApplied = some (k, new) ∧ k.running = true ∧ k.down = [] :=
  ⟨_, rfl, rfl, rfl⟩

theorem applied_in_order_bothApplied :
    ∃ p, lts.exec (twoWaiting, new) bothApplied = some p ∧
      ∃ bs, bs.flatMap Batch.messages = twoWaiting.down ∧
        twoWaiting.client.handleBatches bs = p.1.client := by
  obtain ⟨k, hexec, hrunning, hdown⟩ := exec_bothApplied
  obtain ⟨bs, _, _, hall⟩ := applied_in_order twoWaiting
    (LTS.steps_of_exec (M := lts) hexec (LTS.guarded_anyStep (twoWaiting, new) bothApplied)) hrunning
  refine ⟨_, hexec, bs, ?_⟩
  exact hall (settled_of_waiting hdown rfl rfl rfl) (by simp [new])

end ClientTasks

end Bluecross
