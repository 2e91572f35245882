/-
# Bluecross.Confidentiality — keystrokes reach the active client and nothing else.

The code and value of a key or button and the deltas of a scroll are secret. Two runs that differ in
secrets only, and whose queues answer alike, are compared step by step. A handler is a computation on
the queues; two such computations are `Alike` when, on queues that have answered the same number of
calls, they return the same value and make the same calls, except that the message of a call may
differ where it goes to one queue that is let off. `Alike` is closed under composition, so one line
for each handler suffices: the queue let off is the active client's, and the value returned is the
whole server.

`Deed` is what one event did: who was active, and the calls that were made.
-/
import Bluecross.ServerControl

namespace Bluecross

open Lib (LTS)

section

variable {τ α β : Type}

/-! ## Computations that cannot be told apart -/

/-- The same call, but for a message to the queue let off. -/
structure Attempt.Alike (except : Option τ) (a b : Attempt τ) : Prop where
  tx : a.tx = b.tx
  answer : a.answer = b.answer
  msg : some a.tx ≠ except → a.msg = b.msg

/-- On queues that have answered the same number of calls: the same value, and the same calls. -/
def Alike (except : Option τ) (f g : Recorder τ → α × Recorder τ) : Prop :=
  ∀ answers k, ∃ a sent sent', List.Forall₂ (Attempt.Alike except) sent sent' ∧
    ∀ log log' : List (Attempt τ), log.length = k → log'.length = k →
      f ⟨answers, log⟩ = (a, ⟨answers, log ++ sent⟩) ∧
        g ⟨answers, log'⟩ = (a, ⟨answers, log' ++ sent'⟩)

variable {except : Option τ}

namespace Alike

theorem pure (a : α) : Alike except (fun r => (a, r)) (fun r => (a, r)) := by
  intro answers k
  refine ⟨a, [], [], .nil, ?_⟩
  intro log log' _ _
  rw [List.append_nil, List.append_nil]
  exact ⟨rfl, rfl⟩

theorem bind {f f' : Recorder τ → α × Recorder τ} {g g' : α → Recorder τ → β × Recorder τ}
    (hf : Alike except f f') (hg : ∀ a, Alike except (g a) (g' a)) :
    Alike except (fun r => g (f r).1 (f r).2) (fun r => g' (f' r).1 (f' r).2) := by
  intro answers k
  obtain ⟨a, sent, sent', hsent, hrun⟩ := hf answers k
  obtain ⟨b, more, more', hmore, hrest⟩ := hg a answers (k + sent.length)
  refine ⟨b, sent ++ more, sent' ++ more', List.rel_append hsent hmore, ?_⟩
  intro log log' hlog hlog'
  obtain ⟨h₁, h₁'⟩ := hrun log log' hlog hlog'
  obtain ⟨h₂, h₂'⟩ := hrest (log ++ sent) (log' ++ sent')
    (by rw [List.length_append, hlog]) (by rw [List.length_append, hlog', hsent.length_eq])
  refine ⟨?_, ?_⟩
  · show g (f _).1 (f _).2 = _
    rw [h₁, h₂, List.append_assoc]
  · show g' (f' _).1 (f' _).2 = _
    rw [h₁', h₂', List.append_assoc]

/-- A value computed from the result of one call or more. -/
theorem map {f f' : Recorder τ → α × Recorder τ} (hf : Alike except f f') (v : α → β) :
    Alike except (fun r => (v (f r).1, (f r).2)) (fun r => (v (f' r).1, (f' r).2)) :=
  hf.bind fun a => pure (v a)

theorem trySend (tx : τ) {msg msg' : Message} (hmsg : some tx ≠ except → msg = msg') :
    Alike except (fun r : Recorder τ => Mailbox.trySend r tx msg)
      (fun r => Mailbox.trySend r tx msg') := by
  intro answers k
  refine ⟨answers k, [⟨tx, msg, answers k⟩], [⟨tx, msg', answers k⟩],
    .cons ⟨rfl, rfl, hmsg⟩ .nil, ?_⟩
  rintro log log' rfl hlog'
  refine ⟨rfl, ?_⟩
  show (answers log'.length, _) = _
  rw [← hlog']

end Alike

/-! ## The handlers -/

namespace Server

variable (s : Server τ) {msg msg' : Message}

theorem alike_sendTo (name : String)
    (hmsg : (s.clients.lookup name).map ClientInfo.tx ≠ except → msg = msg') :
    Alike except (fun r : Recorder τ => s.sendTo r name msg) (fun r => s.sendTo r name msg') := by
  rcases hclient : s.clients.lookup name with _ | client
  · simp only [sendTo_unknown hclient]
    exact .pure false
  · rw [hclient] at hmsg
    simp only [sendTo_registered hclient]
    exact (Alike.trySend client.tx hmsg).map fun answer => decide (answer ≠ .closed)

/-- Motion that is flushed is not one of the messages that may differ. -/
theorem alike_motion (except : Option τ) (name : String) (x y dx dy : Int32) :
    Alike except (fun r : Recorder τ => s.sendTo r name (Message.mouseMove x y dx dy))
      (fun r => s.sendTo r name (Message.mouseMove x y dx dy)) :=
  s.alike_sendTo name fun _ => rfl

theorem alike_sendOrDeactivate (name : String)
    (hmsg : (s.clients.lookup name).map ClientInfo.tx ≠ except → msg = msg') :
    Alike except (fun r : Recorder τ => s.sendOrDeactivate r name msg)
      (fun r => s.sendOrDeactivate r name msg') := by
  have hsent := s.alike_sendTo name hmsg
  have hend := hsent.map fun sent => if sent then s else s.deactivate name
  simp only [sendOrDeactivate]
  convert hend using 2 with r r
  · split <;> rfl
  · split <;> rfl

theorem alike_forwardToActive (flush : Bool) (hmsg : s.activeTx ≠ except → msg = msg') :
    Alike except (fun r : Recorder τ => s.forwardToActive r msg flush)
      (fun r => s.forwardToActive r msg' flush) := by
  cases hactive : s.activeClient with
  | none =>
      simp only [forwardToActive_of_none hactive]
      exact .pure s
  | some n =>
      have hmsg : (s.clients.lookup n).map ClientInfo.tx ≠ except → msg = msg' := by
        rw [activeTx, hactive] at hmsg
        exact hmsg
      simp only [forwardToActive_of_active hactive]
      split
      · -- the motion is the same in both runs, and so is what follows from its answer
        have hmotion := (s.setPending 0 0).alike_motion except n s.mouseX s.mouseY s.pendingDx
          s.pendingDy
        have hlast : ∀ sent : Bool, Alike except
            (fun r : Recorder τ => if sent then (s.setPending 0 0).sendOrDeactivate r n msg
              else ((s.setPending 0 0).deactivate n, r))
            (fun r => if sent then (s.setPending 0 0).sendOrDeactivate r n msg'
              else ((s.setPending 0 0).deactivate n, r)) := by
          intro sent
          cases sent with
          | false => exact .pure _
          | true => exact (s.setPending 0 0).alike_sendOrDeactivate n hmsg
        exact hmotion.bind hlast
      · exact s.alike_sendOrDeactivate n hmsg

theorem alike_sendEach (names : List String) :
    Alike except (fun r : Recorder τ => ((), s.sendEach msg r names))
      (fun r => ((), s.sendEach msg r names)) := by
  induction names with
  | nil => exact .pure ()
  | cons name names ih => exact (s.alike_sendTo name fun _ => rfl).bind fun _ => ih

theorem alike_handleInput (env : Env τ) (ev : CaptureEvent) :
    Alike except (fun r : Recorder τ => s.handleInput env r ev)
      (fun r => s.handleInput env r ev) := by
  cases ev with
  | key code value => exact s.alike_forwardToActive true fun _ => rfl
  | mouseButton code value => exact s.alike_forwardToActive true fun _ => rfl
  | mouseScroll dx dy => exact s.alike_forwardToActive false fun _ => rfl
  | mouseMove dx dy =>
      unfold handleInput
      simp only
      split
      · rename_i n _
        simp only [forwardMotion_eq]
        split
        · have hsent := ((s.moveCursor dx dy).setPending ((s.moveCursor dx dy).pendingDx + dx)
            ((s.moveCursor dx dy).pendingDy + dy)).alike_motion except n (s.moveCursor dx dy).mouseX
            (s.moveCursor dx dy).mouseY ((s.moveCursor dx dy).pendingDx + dx)
            ((s.moveCursor dx dy).pendingDy + dy)
          have hend := hsent.map fun sent =>
            if sent then
              { ((s.moveCursor dx dy).setPending ((s.moveCursor dx dy).pendingDx + dx)
                ((s.moveCursor dx dy).pendingDy + dy)).setPending 0 0 with lastFlush := env.now }
            else ((s.moveCursor dx dy).setPending ((s.moveCursor dx dy).pendingDx + dx)
                ((s.moveCursor dx dy).pendingDy + dy)).deactivate n
          convert hend using 2 with r r
          · split <;> rfl
          · split <;> rfl
        · exact .pure _
      · split
        · simp only [switchTo_eq]
          exact alike_sendOrDeactivate _ _ fun _ => rfl
        · exact .pure _

/-- The same event on queues that answer alike. -/
theorem alike_handle (env : Env τ) (event : ServerEvent τ) :
    Alike except (fun r : Recorder τ => s.handle env r event)
      (fun r => s.handle env r event) := by
  cases event with
  | input ev => exact s.alike_handleInput env ev
  | newClient name position w h tx => exact .pure _
  | clientDisconnected name => exact .pure _
  | clipboardChanged content =>
      unfold handle broadcastClipboard
      simp only
      split
      · exact .pure s
      · exact (s.alike_sendEach _).map fun _ => s
  | clientMessage name msg =>
      unfold handle handleClientMessage
      simp only
      split
      · split
        · exact .pure _
        · exact .pure _
      · split
        · exact (alike_sendEach _ _).map fun _ => _
        · exact .pure _
      · exact .pure _

/-- An event makes the same calls whatever was called before. -/
theorem handle_sent (env : Env τ) (event : ServerEvent τ) (answers : Nat → TrySend) (k : Nat) :
    ∃ s' sent, ∀ log : List (Attempt τ), log.length = k →
      s.handle env (Recorder.mk answers log) event = (s', ⟨answers, log ++ sent⟩) := by
  obtain ⟨s', sent, _, _, hrun⟩ : ∃ a sent sent', List.Forall₂ (Attempt.Alike none) sent sent' ∧ _ :=
    s.alike_handle env event answers k
  exact ⟨s', sent, fun log hlog => (hrun log log hlog hlog).1⟩

end Server

/-! ## Secrets -/

/-- Events that differ in secrets at most: the code and value of a key or a button, and the deltas of
a scroll. -/
inductive ServerEvent.Alike : ServerEvent τ → ServerEvent τ → Prop
  | same (event : ServerEvent τ) : Alike event event
  | key (code code' : UInt16) (value value' : Int32) :
      Alike (.input (.key code value)) (.input (.key code' value'))
  | mouseButton (code code' : UInt16) (value value' : Int32) :
      Alike (.input (.mouseButton code value)) (.input (.mouseButton code' value'))
  | mouseScroll (dx dx' dy dy' : Int32) :
      Alike (.input (.mouseScroll dx dy)) (.input (.mouseScroll dx' dy'))

/-- The events that carry secrets. -/
def ServerEvent.Secret : ServerEvent τ → Prop
  | .input (.key _ _) => True
  | .input (.mouseButton _ _) => True
  | .input (.mouseScroll _ _) => True
  | _ => False

theorem Server.alike_handle_secret (s : Server τ) (env : Env τ) {event event' : ServerEvent τ}
    (h : event.Alike event') :
    Bluecross.Alike s.activeTx (fun r : Recorder τ => s.handle env r event)
      (fun r => s.handle env r event') := by
  cases h with
  | same => exact s.alike_handle env event
  | key => exact s.alike_forwardToActive true fun h => absurd rfl h
  | mouseButton => exact s.alike_forwardToActive true fun h => absurd rfl h
  | mouseScroll => exact s.alike_forwardToActive false fun h => absurd rfl h

/-- A secret event is dropped while nobody is active. -/
theorem Server.handle_secret_idle {s : Server τ} (hidle : s.activeClient = none) (env : Env τ)
    (r : Recorder τ) {event : ServerEvent τ} (hsecret : event.Secret) :
    s.handle env r event = (s, r) := by
  cases event with
  | input ev =>
      cases ev with
      | mouseMove => cases hsecret
      | key code value => exact forwardToActive_of_none hidle r _ _
      | mouseButton code value => exact forwardToActive_of_none hidle r _ _
      | mouseScroll dx dy => exact forwardToActive_of_none hidle r _ _
  | newClient => cases hsecret
  | clientMessage => cases hsecret
  | clientDisconnected => cases hsecret
  | clipboardChanged => cases hsecret

/-! ## Two runs -/

/-- What one event did: who was active, on which queue, and the calls that were made. -/
structure Deed (τ : Type) where
  event : ServerEvent τ
  active : Option String
  activeTx : Option τ
  sent : List (Attempt τ)

/-- What an event does to a server and its queues. -/
def deed (p : Server τ × Recorder τ) (l : Env τ × ServerEvent τ) : Deed τ where
  event := l.2
  active := p.1.activeClient
  activeTx := p.1.activeTx
  sent := (p.1.handle l.1 p.2 l.2).2.log.drop p.2.log.length

/-- What the events of a run did, in turn. -/
def deeds (config : ServerConfig) (p : Server τ × Recorder τ) (ls : List (Env τ × ServerEvent τ)) :
    List (Deed τ) :=
  (Server.system config).record (fun p l done => done ++ [deed p l]) p ls []

/-- Two deeds that differ in what the active client was sent at most, and do so for secret events
only. -/
structure Deed.Confined (d d' : Deed τ) : Prop where
  active : d.active = d'.active
  activeTx : d.activeTx = d'.activeTx
  others : List.Forall₂ (Attempt.Alike d.activeTx) d.sent d'.sent
  same : d.event = d'.event → d.sent = d'.sent
  idle : d.event.Secret → d.active = none → d.sent = [] ∧ d'.sent = []

/-- The calls that a run made are those of its deeds. -/
theorem log_deeds {config : ServerConfig} {p q : Server τ × Recorder τ}
    {ls : List (Env τ × ServerEvent τ)} (h : (Server.system config).Steps LTS.anyStep p ls q) :
    q.2.log = p.2.log ++ (deeds config p ls).flatMap Deed.sent := by
  refine LTS.Steps.record_invariant
    (I := fun (q : Server τ × Recorder τ) done => q.2.log = p.2.log ++ done.flatMap Deed.sent)
    ?_ h (g := []) (List.append_nil _).symm
  rintro ⟨s, r⟩ ⟨env, event⟩ s' done hlog _ hnext
  have hnext : s.handle env r event = s' := Option.some.inj hnext
  obtain ⟨_, sent, hrun⟩ := s.handle_sent env event r.answers r.log.length
  have hrun := hrun r.log rfl
  have hsent : (deed (s, r) (env, event)).sent = sent := by
    show (s.handle env r event).2.log.drop r.log.length = sent
    rw [show s.handle env r event = _ from hrun]
    exact List.drop_left
  have hq : s'.2.log = r.log ++ sent := by
    rw [← hnext, show s.handle env r event = _ from hrun]
  rw [List.flatMap_append, List.flatMap_singleton, hsent, ← List.append_assoc, ← hlog]
  exact hq

/-- One event in two runs. -/
theorem handle_confined {s : Server τ} {r r' : Recorder τ} {env : Env τ}
    {event event' : ServerEvent τ} (hanswers : r'.answers = r.answers)
    (hcount : r'.log.length = r.log.length) (halike : event.Alike event') :
    (s.handle env r' event').1 = (s.handle env r event).1 ∧
      (s.handle env r' event').2.answers = (s.handle env r event).2.answers ∧
      (s.handle env r' event').2.log.length = (s.handle env r event).2.log.length ∧
      (deed (s, r) (env, event)).Confined (deed (s, r') (env, event')) := by
  obtain ⟨answers, log⟩ := r
  obtain ⟨answers', log'⟩ := r'
  obtain rfl : answers' = answers := hanswers
  have hcount : log'.length = log.length := hcount
  obtain ⟨s₁, sent, sent', hsent, hrun⟩ := s.alike_handle_secret env halike answers' log.length
  obtain ⟨h, h'⟩ := hrun log log' rfl hcount
  have h : s.handle env (Recorder.mk answers' log) event = (s₁, ⟨answers', log ++ sent⟩) := h
  have h' : s.handle env (Recorder.mk answers' log') event' = (s₁, ⟨answers', log' ++ sent'⟩) := h'
  have hdeed : (deed (s, ⟨answers', log⟩) (env, event)).sent = sent := by
    show (s.handle env (Recorder.mk answers' log) event).2.log.drop log.length = sent
    rw [h]
    exact List.drop_left
  have hdeed' : (deed (s, ⟨answers', log'⟩) (env, event')).sent = sent' := by
    show (s.handle env (Recorder.mk answers' log') event').2.log.drop log'.length = sent'
    rw [h']
    exact List.drop_left
  refine ⟨by rw [h, h'], by rw [h, h'], ?_, rfl, rfl, ?_, ?_, ?_⟩
  · rw [h, h', List.length_append, List.length_append, hcount, hsent.length_eq]
  · rw [hdeed, hdeed']
    exact hsent
  · -- the same event: no queue need be let off
    rintro rfl
    rw [hdeed, hdeed']
    obtain ⟨_, same, hrun⟩ := s.handle_sent env event answers' log.length
    have g := h.symm.trans (hrun log rfl)
    have g' := h'.symm.trans (hrun log' hcount)
    have hlog : log ++ sent = log ++ same := congrArg (fun p => p.2.log) g
    have hlog' : log' ++ sent' = log' ++ same := congrArg (fun p => p.2.log) g'
    rw [List.append_cancel_left hlog, List.append_cancel_left hlog']
  · intro (hsecret : event.Secret) (hidle : s.activeClient = none)
    -- both events are secret, and both are dropped
    have hsecret' : event'.Secret := by
      cases halike with
      | same => exact hsecret
      | key => exact trivial
      | mouseButton => exact trivial
      | mouseScroll => exact trivial
    refine ⟨?_, ?_⟩
    · show (s.handle env (Recorder.mk answers' log) event).2.log.drop log.length = []
      rw [Server.handle_secret_idle hidle env _ hsecret]
      exact List.drop_length
    · show (s.handle env (Recorder.mk answers' log') event').2.log.drop log'.length = []
      rw [Server.handle_secret_idle hidle env _ hsecret']
      exact List.drop_length

/-- Two runs of the server that differ in secrets only stay in the same state, and whatever a secret
event queues goes to the client that was active. -/
theorem keystrokes_confined (config : ServerConfig) (q p p' : Server τ × Recorder τ)
    (ls ls' : List (Env τ × ServerEvent τ))
    (hlabels : List.Forall₂ (fun l l' => l.1 = l'.1 ∧ l.2.Alike l'.2) ls ls')
    (hrun : (Server.system config).Steps LTS.anyStep q ls p)
    (hrun' : (Server.system config).Steps LTS.anyStep q ls' p') :
    p.1 = p'.1 ∧ List.Forall₂ Deed.Confined (deeds config q ls) (deeds config q ls') := by
  have hboth : p.1 = p'.1 ∧ p'.2.answers = p.2.answers ∧ p'.2.log.length = p.2.log.length ∧
      List.Forall₂ Deed.Confined (deeds config q ls) (deeds config q ls') := LTS.Steps.lockstep
    (I := fun (p : Server τ × Recorder τ) done (p' : Server τ × Recorder τ) done' =>
      p.1 = p'.1 ∧ p'.2.answers = p.2.answers ∧ p'.2.log.length = p.2.log.length ∧
        List.Forall₂ Deed.Confined done done')
    ?_ hlabels hrun hrun' ⟨rfl, rfl, rfl, .nil⟩
  · exact ⟨hboth.1, hboth.2.2.2⟩
  · rintro ⟨s, r⟩ done ⟨s', r'⟩ done' ⟨env, event⟩ ⟨env', event'⟩ t t' ⟨rfl, hanswers, hcount, hdone⟩
      ⟨rfl, halike⟩ hnext hnext'
    -- in step: the states are equal, and the queues have answered equally often
    rw [← Option.some.inj hnext, ← Option.some.inj hnext']
    obtain ⟨hstate, hans, hlen, hconfined⟩ := handle_confined hanswers hcount halike
    exact ⟨hstate.symm, hans, hlen, List.rel_append hdone (.cons hconfined .nil)⟩

/-- The client connects, the cursor is pushed over its edge, and this key goes down. -/
def typed (code : UInt16) : List (Env Unit × ServerEvent Unit) :=
  let env : Env Unit := ⟨0, HashOrder.entries Unit⟩
  [(env, .newClient "laptop" .left 800 600 ()), (env, .input (.mouseMove (-1000) 0)),
    (env, .input (.key code 1))]

/-- Two keys: the client is told which, and that is all. -/
theorem keystrokes_confined_left :
    let q := (Server.new Server.leftConfig ClipboardManager.new 0, (⟨fun _ => .ok, []⟩ : Recorder Unit))
    ∃ p p', (Server.system Server.leftConfig).exec q (typed 30) = some p ∧
      (Server.system Server.leftConfig).exec q (typed 31) = some p' ∧
      p.2.log.length = 2 ∧ p.1 = p'.1 ∧
      List.Forall₂ Deed.Confined (deeds Server.leftConfig q (typed 30))
        (deeds Server.leftConfig q (typed 31)) := by
  refine ⟨_, _, rfl, rfl, rfl, ?_⟩
  refine keystrokes_confined Server.leftConfig _ _ _ (typed 30) (typed 31) ?_
    (LTS.steps_of_exec rfl (LTS.guarded_anyStep _ _)) (LTS.steps_of_exec rfl (LTS.guarded_anyStep _ _))
  exact .cons ⟨rfl, .same _⟩ (.cons ⟨rfl, .same _⟩ (.cons ⟨rfl, .key 30 31 1 1⟩ .nil))

end

end Bluecross
