/-
# Bluecross.Forwarding — what an active client is sent is what was captured.

The first part is about two lists and says nothing of the server: captured events, messages queued,
and the motion that is still pending. `Faithful` is the relation between them that forwarding is meant
to keep. Messages other than motion and clipboard are the captured keys, buttons and scrolls; ahead of
a key or a button, all motion captured before it has been queued; and no motion is lost, because what
is queued and what is pending add up to what was captured. Accumulating, flushing and forwarding each
keep it.

The second part shows that every event the server handles while a client is active is a sequence of
such steps: motion is released by the clock or by a key or a button, scrolls overtake pending motion,
and what other clients do only adds clipboard messages. The queues are a `Recorder`, which answers
each `try_send` as it likes and keeps a log; the theorem asks that the answers for the active client
are `Ok`.
-/
import Bluecross.ServerControl

namespace Bluecross

open Lib (LTS)

/-! ## Captured and queued -/

/-- The motion of a captured event. -/
def CaptureEvent.delta : CaptureEvent → Int32 × Int32
  | .mouseMove dx dy => (dx, dy)
  | _ => 0

/-- The message a captured key, button or scroll is forwarded as. -/
def CaptureEvent.message : CaptureEvent → Option Message
  | .key code value => some (Message.keyEvent code value)
  | .mouseMove _ _ => none
  | .mouseButton code value => some (Message.mouseButton code value)
  | .mouseScroll dx dy => some (Message.mouseScroll dx dy)

/-- The sum of the captured motion, in wrapping arithmetic. -/
def captured (events : List CaptureEvent) : Int32 × Int32 := (events.map CaptureEvent.delta).sum

/-- A queue without its motion and clipboard messages. -/
def inputsOf (queue : List Message) : List Message :=
  queue.filter fun msg => msg.msgType ≠ .mouseMove ∧ msg.msgType ≠ .clipboardData

/-- The queue forwards the captured events faithfully, with this motion still pending. -/
structure Faithful (events : List CaptureEvent) (queue : List Message)
    (pending : Int32 × Int32) : Prop where
  inputs : inputsOf queue = events.filterMap CaptureEvent.message
  ordered : ∀ before msg after, queue = before ++ msg :: after → msg.isPress →
    ∃ earlier ev later, events = earlier ++ ev :: later ∧ ev.message = some msg ∧
      inputsOf before = earlier.filterMap CaptureEvent.message ∧ moved before = captured earlier
  conserved : moved queue + pending = captured events

namespace Faithful

variable {events : List CaptureEvent} {queue : List Message} {pending : Int32 × Int32}

theorem nil : Faithful [] [] 0 := by
  refine ⟨rfl, ?_, rfl⟩
  intro before msg after h
  have hlen := congrArg List.length h
  simp at hlen

theorem inputsOf_append (q₁ q₂ : List Message) :
    inputsOf (q₁ ++ q₂) = inputsOf q₁ ++ inputsOf q₂ := List.filter_append ..

theorem captured_append (e₁ e₂ : List CaptureEvent) :
    captured (e₁ ++ e₂) = captured e₁ + captured e₂ := by
  simp only [captured, List.map_append, List.sum_append]

/-- The position of a message in a queue that grows by one: before, or at the end. -/
theorem split_concat {before after : List Message} {msg last : Message}
    (h : queue ++ [last] = before ++ msg :: after) :
    (∃ after', after = after' ++ [last] ∧ queue = before ++ msg :: after') ∨
      (after = [] ∧ msg = last ∧ before = queue) := by
  rcases List.eq_nil_or_concat after with rfl | ⟨after', last', rfl⟩
  · right
    obtain ⟨hb, hm⟩ := List.append_inj' h rfl
    exact ⟨rfl, (List.singleton_inj.mp hm).symm, hb.symm⟩
  · left
    have hshape : queue ++ [last] = (before ++ msg :: after') ++ [last'] := by
      rw [h, List.concat_eq_append, List.append_assoc, List.cons_append]
    obtain ⟨hq, hl⟩ := List.append_inj' hshape rfl
    exact ⟨after', by rw [List.singleton_inj.mp hl, List.concat_eq_append], hq⟩

/-- A message that is neither a key nor a button may follow at any time. -/
theorem push (h : Faithful events queue pending) {msg : Message} (hmsg : ¬ msg.isPress)
    {events' : List CaptureEvent} {pending' : Int32 × Int32} (hevents : events <+: events')
    (hinputs : inputsOf (queue ++ [msg]) = events'.filterMap CaptureEvent.message)
    (hsum : moved (queue ++ [msg]) + pending' = captured events') :
    Faithful events' (queue ++ [msg]) pending' := by
  refine ⟨hinputs, ?_, hsum⟩
  intro before m after hq hm
  rcases split_concat hq with ⟨after', _, hold⟩ | ⟨_, hlast, _⟩
  · obtain ⟨earlier, ev, later, he, hev, hin, hmo⟩ := h.ordered before m after' hold hm
    obtain ⟨more, hmore⟩ := hevents
    refine ⟨earlier, ev, later ++ more, ?_, hev, hin, hmo⟩
    rw [← hmore, he, List.append_assoc, List.cons_append]
  · rw [hlast] at hm
    exact absurd hm hmsg

/-- Captured motion is pending first. -/
theorem accumulate (h : Faithful events queue pending) (dx dy : Int32) :
    Faithful (events ++ [.mouseMove dx dy]) queue (pending + (dx, dy)) := by
  refine ⟨?_, ?_, ?_⟩
  · rw [h.inputs, List.filterMap_append]
    exact (List.append_nil _).symm
  · intro before msg after hq hm
    obtain ⟨earlier, ev, later, he, hev, hin, hmo⟩ := h.ordered before msg after hq hm
    refine ⟨earlier, ev, later ++ [.mouseMove dx dy], ?_, hev, hin, hmo⟩
    rw [he, List.append_assoc, List.cons_append]
  · have hone : captured [.mouseMove dx dy] = (dx, dy) := by
      simp only [captured, List.map_cons, List.map_nil, List.sum_cons, List.sum_nil,
        CaptureEvent.delta, add_zero]
    rw [captured_append, ← h.conserved, hone, add_assoc]

/-- A flush queues all pending motion. -/
theorem flush (h : Faithful events queue pending) (x y : Int32) :
    Faithful events (queue ++ [Message.mouseMove x y pending.1 pending.2]) 0 := by
  have hone : moved [Message.mouseMove x y pending.1 pending.2] = pending := by
    have hdelta := Message.delta_mouseMove x y pending.1 pending.2
    simp only [moved, List.map_cons, List.map_nil, List.sum_cons, List.sum_nil, Message.motion,
      hdelta, add_zero]
    rfl
  refine h.push ?_ (List.prefix_refl events) ?_ ?_
  · intro hpress
    rcases hpress with hkey | hbutton
    · cases hkey
    · cases hbutton
  · rw [inputsOf_append, h.inputs]
    exact List.append_nil _
  · rw [moved_append, hone, add_zero, h.conserved]

/-- A clipboard message stands beside the input. -/
theorem clipboard (h : Faithful events queue pending) (content : String) :
    Faithful events (queue ++ [Message.clipboardData content]) pending := by
  refine h.push ?_ (List.prefix_refl events) ?_ ?_
  · intro hpress
    rcases hpress with hkey | hbutton
    · cases hkey
    · cases hbutton
  · rw [inputsOf_append, h.inputs]
    exact List.append_nil _
  · rw [moved_append, show moved [Message.clipboardData content] = 0 from rfl, add_zero,
      h.conserved]

/-- Any number of them. -/
theorem clipboards {more : List Message} (h : Faithful events queue pending) (content : String)
    (hmore : ∀ msg ∈ more, msg = Message.clipboardData content) :
    Faithful events (queue ++ more) pending := by
  induction more generalizing queue with
  | nil =>
      rw [List.append_nil]
      exact h
  | cons msg more ih =>
      have hmsg : msg = Message.clipboardData content := hmore msg (List.mem_cons_self ..)
      have hone : Faithful events (queue ++ [msg]) pending := by
        rw [hmsg]
        exact h.clipboard content
      have hrest := ih hone fun m hm => hmore m (List.mem_cons_of_mem msg hm)
      rw [List.append_assoc, List.singleton_append] at hrest
      exact hrest

/-- A scroll is queued at once; pending motion stays pending. -/
theorem scroll (h : Faithful events queue pending) (dx dy : Int32) :
    Faithful (events ++ [.mouseScroll dx dy]) (queue ++ [Message.mouseScroll dx dy]) pending := by
  refine h.push ?_ (List.prefix_append events _) ?_ ?_
  · intro hpress
    rcases hpress with hkey | hbutton
    · cases hkey
    · cases hbutton
  · rw [inputsOf_append, h.inputs, List.filterMap_append]
    rfl
  · rw [moved_append, captured_append, show moved [Message.mouseScroll dx dy] = 0 from rfl,
      show captured [.mouseScroll dx dy] = 0 from rfl, add_zero, add_zero, h.conserved]

/-- A key or a button is queued once nothing is pending. -/
theorem press (h : Faithful events queue 0) {ev : CaptureEvent} {msg : Message}
    (hev : ev.message = some msg) (hdelta : ev.delta = 0) (hmsg : msg.isPress) :
    Faithful (events ++ [ev]) (queue ++ [msg]) 0 := by
  have hkeep : inputsOf [msg] = [msg] := by
    have htype : msg.msgType ≠ .mouseMove ∧ msg.msgType ≠ .clipboardData := by
      rcases hmsg with hkey | hbutton
      · rw [hkey]
        decide
      · rw [hbutton]
        decide
    simp only [inputsOf, List.filter_cons, htype, ne_eq, not_false_eq_true, and_self, decide_true,
      if_true, List.filter_nil]
  have hstill : moved [msg] = 0 := by
    have htype : msg.msgType ≠ .mouseMove := by
      rcases hmsg with hkey | hbutton
      · rw [hkey]
        decide
      · rw [hbutton]
        decide
    simp only [moved, List.map_cons, List.map_nil, List.sum_cons, List.sum_nil, Message.motion,
      htype, if_false, add_zero]
  have hcaptured : captured [ev] = 0 := by
    simp only [captured, List.map_cons, List.map_nil, List.sum_cons, List.sum_nil, hdelta, add_zero]
  refine ⟨?_, ?_, ?_⟩
  · rw [inputsOf_append, hkeep, h.inputs, List.filterMap_append, List.filterMap_cons_some hev,
      List.filterMap_nil]
  · intro before m after hq hm
    rcases split_concat hq with ⟨after', _, hold⟩ | ⟨_, hlast, hbefore⟩
    · obtain ⟨earlier, ev', later, he, hev', hin, hmo⟩ := h.ordered before m after' hold hm
      refine ⟨earlier, ev', later ++ [ev], ?_, hev', hin, hmo⟩
      rw [he, List.append_assoc, List.cons_append]
    · refine ⟨events, ev, [], rfl, by rw [hev, hlast], ?_, ?_⟩
      · rw [hbefore, h.inputs]
      · rw [hbefore, ← h.conserved, add_zero]
  · rw [moved_append, captured_append, hstill, hcaptured, add_zero, add_zero, add_zero]
    rw [← h.conserved, add_zero]

end Faithful

/-! ## What a recorder was asked -/

section

variable {τ : Type} (owner : τ → String) (n : String)

/-- The messages queued to a client: what was accepted on the senders it owns. -/
def queuedTo (log : List (Attempt τ)) : List Message :=
  (log.filter fun a => owner a.tx = n ∧ a.answer = .ok).map Attempt.msg

/-- No attempt to reach the client was answered `Full` or `Closed`. -/
def Accepted (log : List (Attempt τ)) : Prop := ∀ a ∈ log, owner a.tx = n → a.answer = .ok

variable {owner n}

theorem queuedTo_append (l₁ l₂ : List (Attempt τ)) :
    queuedTo owner n (l₁ ++ l₂) = queuedTo owner n l₁ ++ queuedTo owner n l₂ := by
  simp only [queuedTo, List.filter_append, List.map_append]

theorem queuedTo_own {tx : τ} {msg : Message} (htx : owner tx = n) :
    queuedTo owner n [⟨tx, msg, .ok⟩] = [msg] := by
  simp only [queuedTo, List.filter_cons, htx, and_self, decide_true, if_true, List.filter_nil,
    List.map_cons, List.map_nil]

/-- What is queued to a client was attempted. -/
theorem mem_of_mem_queuedTo {log : List (Attempt τ)} {msg : Message}
    (h : msg ∈ queuedTo owner n log) : ∃ a ∈ log, a.msg = msg := by
  obtain ⟨a, ha, hmsg⟩ := List.mem_map.mp h
  exact ⟨a, List.mem_of_mem_filter ha, hmsg⟩

theorem Accepted.left {l₁ l₂ : List (Attempt τ)} (h : Accepted owner n (l₁ ++ l₂)) :
    Accepted owner n l₁ :=
  fun a ha => h a (List.mem_append_left l₂ ha)

theorem Accepted.right {l₁ l₂ : List (Attempt τ)} (h : Accepted owner n (l₁ ++ l₂)) :
    Accepted owner n l₂ :=
  fun a ha => h a (List.mem_append_right l₁ ha)

end

namespace Server

variable {τ : Type} {owner : τ → String} {n : String}

/-- Every registered client is reached through a sender of its own. -/
def Owned (owner : τ → String) (s : Server τ) : Prop :=
  ∀ m c, s.clients.lookup m = some c → owner c.tx = m

/-- The pending motion. -/
def pending (s : Server τ) : Int32 × Int32 := (s.pendingDx, s.pendingDy)

/-- One attempt to a registered client, as it is logged. -/
theorem sendTo_log {s : Server τ} {m : String} {c : ClientInfo τ}
    (h : s.clients.lookup m = some c) (r : Recorder τ) (msg : Message) :
    ∃ answer, (s.sendTo r m msg).2.log = r.log ++ [⟨c.tx, msg, answer⟩] ∧
      ((s.sendTo r m msg).1 = false → answer = .closed) := by
  refine ⟨r.answers r.log.length, ?_, ?_⟩
  · rw [sendTo_registered h]
    rfl
  · rw [sendTo_registered h]
    intro hfailed
    exact not_not.mp (of_decide_eq_false hfailed)

/-- A relay makes attempts with one message only. -/
theorem sendEach_log (s : Server τ) (msg : Message) (r : Recorder τ) (names : List String) :
    ∃ sent, (s.sendEach msg r names).log = r.log ++ sent ∧ ∀ a ∈ sent, a.msg = msg := by
  induction names generalizing r with
  | nil => exact ⟨[], (List.append_nil _).symm, by simp⟩
  | cons m names ih =>
      obtain ⟨sent, hsent, hall⟩ := ih (s.sendTo r m msg).2
      rcases hm : s.clients.lookup m with _ | c
      · rw [sendTo_unknown hm] at hsent
        refine ⟨sent, ?_, hall⟩
        show (s.sendEach msg (s.sendTo r m msg).2 names).log = _
        rw [sendTo_unknown hm]
        exact hsent
      · obtain ⟨answer, hlog, _⟩ := sendTo_log hm r msg
        refine ⟨⟨c.tx, msg, answer⟩ :: sent, ?_, ?_⟩
        · show (s.sendEach msg (s.sendTo r m msg).2 names).log = _
          rw [hsent, hlog, List.append_assoc]
          rfl
        · intro a ha
          rcases List.mem_cons.mp ha with rfl | hrest
          · rfl
          · exact hall a hrest

/-- Between two states of the server and the recorder, a client is sent these captured events
faithfully, as long as no attempt to reach it fails. -/
def Serves (owner : τ → String) (n : String) (events : List CaptureEvent)
    (s : Server τ) (r : Recorder τ) (s' : Server τ) (r' : Recorder τ) : Prop :=
  ∃ sent, r'.log = r.log ++ sent ∧
    (Accepted owner n sent → ∀ earlier queue, Faithful earlier queue s.pending →
      Faithful (earlier ++ events) (queue ++ queuedTo owner n sent) s'.pending)

variable {s s' s'' : Server τ} {r r' r'' : Recorder τ} {events events' : List CaptureEvent}

theorem Serves.idle (h : s'.pending = s.pending) : Serves owner n [] s r s' r := by
  refine ⟨[], (List.append_nil _).symm, ?_⟩
  intro _ earlier queue hfaithful
  rw [h, List.append_nil]
  exact (List.append_nil queue).symm ▸ hfaithful

theorem Serves.trans (h₁ : Serves owner n events s r s' r')
    (h₂ : Serves owner n events' s' r' s'' r'') :
    Serves owner n (events ++ events') s r s'' r'' := by
  obtain ⟨sent₁, hlog₁, hstep₁⟩ := h₁
  obtain ⟨sent₂, hlog₂, hstep₂⟩ := h₂
  refine ⟨sent₁ ++ sent₂, by rw [hlog₂, hlog₁, List.append_assoc], ?_⟩
  intro haccepted earlier queue hfaithful
  have hmid := hstep₁ haccepted.left earlier queue hfaithful
  have hend := hstep₂ haccepted.right _ _ hmid
  rw [queuedTo_append, ← List.append_assoc, ← List.append_assoc]
  exact hend

/-- One send to the client: if it fails, nothing is asked; if not, the message has to be right. -/
theorem serves_sendTo {c : ClientInfo τ} {msg : Message} (hc : s.clients.lookup n = some c)
    (htx : owner c.tx = n)
    (hmsg : (s.sendTo r n msg).1 = true → ∀ earlier queue, Faithful earlier queue s.pending →
      Faithful (earlier ++ events) (queue ++ [msg]) s'.pending) :
    Serves owner n events s r s' (s.sendTo r n msg).2 := by
  obtain ⟨answer, hlog, hclosed⟩ := sendTo_log hc r msg
  refine ⟨[⟨c.tx, msg, answer⟩], hlog, ?_⟩
  intro haccepted earlier queue hfaithful
  have hok : answer = .ok := haccepted _ (List.mem_singleton_self _) htx
  have hsent : (s.sendTo r n msg).1 = true := by
    rcases hfailed : (s.sendTo r n msg).1 with _ | _
    · rw [hclosed hfailed] at hok
      cases hok
    · rfl
  rw [hok, queuedTo_own htx]
  exact hmsg hsent earlier queue hfaithful

theorem serves_sendOrDeactivate {c : ClientInfo τ} {msg : Message}
    (hc : s.clients.lookup n = some c) (htx : owner c.tx = n)
    (hmsg : ∀ earlier queue, Faithful earlier queue s.pending →
      Faithful (earlier ++ events) (queue ++ [msg]) s.pending) :
    Serves owner n events s r (s.sendOrDeactivate r n msg).1 (s.sendOrDeactivate r n msg).2 := by
  unfold sendOrDeactivate
  simp only
  split
  · exact serves_sendTo hc htx fun _ => hmsg
  · rename_i hfailed
    exact serves_sendTo hc htx fun hsent => absurd hsent hfailed

/-- A key or a button: the pending motion is flushed first. -/
theorem serves_press {c : ClientInfo τ} {ev : CaptureEvent} {msg : Message}
    (hactive : s.activeClient = some n) (hc : s.clients.lookup n = some c) (htx : owner c.tx = n)
    (hev : ev.message = some msg) (hdelta : ev.delta = 0) (hpress : msg.isPress) :
    Serves owner n [ev] s r (s.forwardToActive r msg true).1 (s.forwardToActive r msg true).2 := by
  rw [forwardToActive_of_active hactive]
  split
  · -- there is motion: it is sent first, and then nothing is pending
    have hflush : ∀ earlier queue, Faithful earlier queue s.pending →
        Faithful (earlier ++ [])
          (queue ++ [Message.mouseMove s.mouseX s.mouseY s.pendingDx s.pendingDy]) 0 := by
      intro earlier queue hfaithful
      rw [List.append_nil]
      exact hfaithful.flush s.mouseX s.mouseY
    have hmotion : ∀ after : Server τ, after.pending = 0 →
        Serves owner n [] s r after ((s.setPending 0 0).sendTo r n
          (Message.mouseMove s.mouseX s.mouseY s.pendingDx s.pendingDy)).2 := by
      intro after hafter
      apply serves_sendTo (s := s) hc htx
      intro _
      rw [hafter]
      exact hflush
    simp only
    split
    · refine (hmotion (s.setPending 0 0) rfl).trans (serves_sendOrDeactivate hc htx ?_)
      intro earlier queue hfaithful
      exact hfaithful.press hev hdelta hpress
    · rename_i hfailed
      -- the motion found the queue closed: the message is not sent, and nothing is asked
      apply serves_sendTo (s := s) hc htx
      intro hsent
      exact absurd hsent hfailed
  · -- there is none
    rename_i hnone
    have hzero : s.pending = 0 := by
      have hdx : s.pendingDx = 0 := by
        by_contra hne
        exact hnone ⟨rfl, Or.inl hne⟩
      have hdy : s.pendingDy = 0 := by
        by_contra hne
        exact hnone ⟨rfl, Or.inr hne⟩
      exact Prod.ext hdx hdy
    apply serves_sendOrDeactivate hc htx
    intro earlier queue hfaithful
    rw [hzero] at hfaithful ⊢
    exact hfaithful.press hev hdelta hpress

/-- A scroll does not wait for the pending motion. -/
theorem serves_scroll {c : ClientInfo τ} (hactive : s.activeClient = some n)
    (hc : s.clients.lookup n = some c) (htx : owner c.tx = n) (dx dy : Int32) :
    Serves owner n [.mouseScroll dx dy] s r
      (s.forwardToActive r (Message.mouseScroll dx dy) false).1
      (s.forwardToActive r (Message.mouseScroll dx dy) false).2 := by
  rw [forwardToActive_of_active hactive, if_neg (by simp)]
  exact serves_sendOrDeactivate hc htx fun _ _ hfaithful => hfaithful.scroll dx dy

/-- Motion is accumulated, and the sum is flushed when the clock says so. -/
theorem serves_motion {c : ClientInfo τ} (env : Env τ) (hc : s.clients.lookup n = some c)
    (htx : owner c.tx = n) (dx dy : Int32) :
    Serves owner n [.mouseMove dx dy] s r (s.forwardMotion env r n dx dy).1
      (s.forwardMotion env r n dx dy).2 := by
  have hsum : (s.setPending (s.pendingDx + dx) (s.pendingDy + dy)).pending
      = s.pending + (dx, dy) := rfl
  have hsend : ∀ after : Server τ,
      (((s.setPending (s.pendingDx + dx) (s.pendingDy + dy)).sendTo r n
        (Message.mouseMove s.mouseX s.mouseY (s.pendingDx + dx) (s.pendingDy + dy))).1 = true →
          after.pending = 0) →
      Serves owner n [.mouseMove dx dy] s r after
        ((s.setPending (s.pendingDx + dx) (s.pendingDy + dy)).sendTo r n
          (Message.mouseMove s.mouseX s.mouseY (s.pendingDx + dx) (s.pendingDy + dy))).2 := by
    intro after hafter
    apply serves_sendTo (s := s) hc htx
    intro hsent earlier queue hfaithful
    rw [hafter hsent]
    exact (hfaithful.accumulate dx dy).flush s.mouseX s.mouseY
  rw [forwardMotion_eq]
  simp only
  split
  · split
    -- due: the sum is sent, and nothing is pending any more
    · exact hsend _ fun _ => rfl
    · rename_i hfailed
      exact hsend _ fun hsent => absurd hsent hfailed
  -- not due: the sum waits
  · refine ⟨[], (List.append_nil _).symm, ?_⟩
    intro _ earlier queue hfaithful
    rw [hsum]
    exact (List.append_nil queue).symm ▸ hfaithful.accumulate dx dy

theorem serves_relay (content : String) (names : List String) (h : s'.pending = s.pending) :
    Serves owner n [] s r s' (s.sendEach (Message.clipboardData content) r names) := by
  obtain ⟨sent, hlog, hall⟩ := sendEach_log s (Message.clipboardData content) r names
  refine ⟨sent, hlog, ?_⟩
  intro _ earlier queue hfaithful
  rw [h, List.append_nil]
  apply hfaithful.clipboards content
  intro msg hmsg
  obtain ⟨a, ha, hamsg⟩ := mem_of_mem_queuedTo hmsg
  rw [← hamsg]
  exact hall a ha

theorem serves_handleInput (env : Env τ) {c : ClientInfo τ} (hactive : s.activeClient = some n)
    (hc : s.clients.lookup n = some c) (htx : owner c.tx = n) (ev : CaptureEvent) :
    Serves owner n [ev] s r (s.handleInput env r ev).1 (s.handleInput env r ev).2 := by
  cases ev with
  | key code value => exact serves_press hactive hc htx rfl rfl (Or.inl rfl)
  | mouseButton code value => exact serves_press hactive hc htx rfl rfl (Or.inr rfl)
  | mouseScroll dx dy => exact serves_scroll hactive hc htx dx dy
  | mouseMove dx dy =>
      have hmoved : Serves owner n [] s r (s.moveCursor dx dy) r := Serves.idle rfl
      have hmotion : Serves owner n [.mouseMove dx dy] (s.moveCursor dx dy) r
          ((s.moveCursor dx dy).forwardMotion env r n dx dy).1
          ((s.moveCursor dx dy).forwardMotion env r n dx dy).2 :=
        serves_motion (s := s.moveCursor dx dy) env hc htx dx dy
      unfold handleInput
      simp only
      rw [show (s.moveCursor dx dy).activeClient = some n from hactive]
      exact hmoved.trans hmotion

/-- The captured input of an event. -/
def inputOf : ServerEvent τ → List CaptureEvent
  | .input ev => [ev]
  | _ => []

/-- One event, handled while the client stays active. -/
theorem serves_handle (env : Env τ) (hcoherent : Coherent s) (howned : Owned owner s)
    (hactive : s.activeClient = some n) (event : ServerEvent τ)
    (hstays : (s.handle env r event).1.activeClient = some n) :
    Serves owner n (inputOf event) s r (s.handle env r event).1 (s.handle env r event).2 := by
  obtain ⟨c, hc⟩ := Option.isSome_iff_exists.mp
    (AList.lookup_isSome.mpr (hcoherent.registered n hactive))
  -- an event that clears the active client is not one of these
  have hkept : ∀ {before : Server τ} {m : String}, before.activeClient = s.activeClient →
      (before.deactivate m).activeClient = some n → (before.deactivate m).pending = before.pending := by
    intro before m hsame hafter
    rw [deactivate_activeClient] at hafter
    split at hafter
    · cases hafter
    · rename_i hne
      rw [deactivate_of_ne hne]
  cases event with
  | input ev => exact serves_handleInput env hactive hc (howned n c hc) ev
  | newClient name position w hgt tx => exact Serves.idle rfl
  | clientDisconnected name => exact Serves.idle (hkept rfl hstays)
  | clipboardChanged content =>
      show Serves owner n [] s r s (s.broadcastClipboard env r content)
      unfold broadcastClipboard
      split
      · exact Serves.idle rfl
      · exact serves_relay content _ rfl
  | clientMessage name msg =>
      have hstays' : (s.handleClientMessage env r name msg).1.activeClient = some n := hstays
      show Serves owner n [] s r (s.handleClientMessage env r name msg).1
        (s.handleClientMessage env r name msg).2
      unfold handleClientMessage at hstays' ⊢
      split
      · split
        · rename_i htype hname
          rw [htype] at hstays'
          simp only [hname, if_true] at hstays'
          exact Serves.idle (hkept rfl hstays')
        · exact Serves.idle rfl
      · split
        · exact serves_relay _ _ rfl
        · exact Serves.idle rfl
      · exact Serves.idle rfl

/-! ## Whole activations -/

/-- A client is registered with a sender of its own. -/
def NamedSenders (owner : τ → String) (_ : Server τ × Recorder τ) (l : Env τ × ServerEvent τ) :
    Prop :=
  ∀ name position w hgt tx, l.2 = .newClient name position w hgt tx → owner tx = name

theorem namedSenders_input (p : Server τ × Recorder τ) (env : Env τ) (ev : CaptureEvent) :
    NamedSenders owner p (env, .input ev) := by
  intro name position w hgt tx hevent
  cases hevent

theorem owned_handle {l : Env τ × ServerEvent τ} {p : Server τ × Recorder τ}
    (h : Owned owner p.1) (hnamed : NamedSenders owner p l) :
    Owned owner (p.1.handle l.1 p.2 l.2).1 := by
  intro m c hlookup
  rw [handle_clients] at hlookup
  rcases lookup_clientsAfter hlookup with hbefore | hevent
  · exact h m c hbefore
  · exact hnamed m _ _ _ c.tx hevent

/-- The captured input of a run. -/
def inputs (ls : List (Env τ × ServerEvent τ)) : List CaptureEvent := ls.flatMap fun l => inputOf l.2

/-- The guard of an activation: the client is active when the event is handled. -/
def Activation (owner : τ → String) (n : String) (p : Server τ × Recorder τ)
    (l : Env τ × ServerEvent τ) : Prop :=
  NamedSenders owner p l ∧ p.1.activeClient = some n

variable {config : ServerConfig}

/-- A client that stays active is served faithfully, event after event. -/
theorem serves_run (hsized : config.Sized) {p p' : Server τ × Recorder τ}
    {ls : List (Env τ × ServerEvent τ)}
    (hrun : (Server.system config).Steps (Activation owner n) p ls p')
    (hcoherent : Coherent p.1) (hconfig : p.1.config = config) (howned : Owned owner p.1)
    (hactive : p'.1.activeClient = some n) :
    Serves owner n (inputs ls) p.1 p.2 p'.1 p'.2 := by
  induction hrun with
  | nil p => exact Serves.idle rfl
  | @cons p q p' l ls hguard hnext hrest ih =>
      have hq : p.1.handle l.1 p.2 l.2 = q := Option.some.inj hnext
      have hsized₁ : p.1.config.Sized := by
        rw [hconfig]
        exact hsized
      -- in the middle of the run it is the next guard that keeps the client active
      have hmid : q.1.activeClient = some n := by
        cases hrest with
        | nil => exact hactive
        | cons hnextGuard _ _ => exact hnextGuard.2
      have hcoherent' : Coherent q.1 := by
        rw [← hq]
        exact coherent_handle hsized₁ hcoherent
      have hconfig' : q.1.config = config := by
        rw [← hq]
        exact (handle_config ..).trans hconfig
      have howned' : Owned owner q.1 := by
        rw [← hq]
        exact owned_handle howned hguard.1
      have hstep : Serves owner n (inputOf l.2) p.1 p.2 q.1 q.2 := by
        rw [← hq] at hmid ⊢
        exact serves_handle l.1 hcoherent howned hguard.2 l.2 hmid
      exact hstep.trans (ih hcoherent' hconfig' howned' hactive)

/-- What holds of the server before a switch. -/
theorem owned_reach {p : Server τ × Recorder τ}
    (h : (Server.system config).Reach (NamedSenders owner) p) : Owned owner p.1 := by
  refine LTS.Reach.invariant (I := fun p => Owned owner p.1) ?_ ?_ h
  · rintro ⟨s₀, ch₀⟩ ⟨clipboard, now, hnew⟩
    have hs₀ : s₀ = Server.new config clipboard now := hnew
    intro m c hlookup
    rw [hs₀] at hlookup
    cases hlookup
  · intro p l q howned hnamed hnext
    have hq : p.1.handle l.1 p.2 l.2 = q := Option.some.inj hnext
    rw [← hq]
    exact owned_handle howned hnamed

/-- The event that activates a client queues one `SwitchToClient`, and leaves no motion pending. -/
theorem switch_spec {env : Env τ} {ev : CaptureEvent} (hcoherent : Coherent s)
    (hidle : s.activeClient = none) (hswitch : s.handle env r (.input ev) = (s', r'))
    (hactive : s'.activeClient = some n) :
    s'.pending = 0 ∧
      ∃ tx x y answer, r'.log = r.log ++ [⟨tx, Message.switchToClient x y, answer⟩] := by
  have hzero : s.pending = 0 := Prod.ext (hcoherent.idle hidle).1 (hcoherent.idle hidle).2
  have hinput : s.handleInput env r ev = (s', r') := hswitch
  rcases handleInput_idle hidle env r ev with hsame | ⟨dx, dy, _, hmoved | ⟨name, x, y, htarget, hover⟩⟩
  -- nothing was done, or the cursor moved only: nobody is active after either
  · rw [hsame] at hinput
    obtain ⟨hs, _⟩ := Prod.mk.inj hinput
    rw [← hs, hidle] at hactive
    cases hactive
  · rw [hmoved] at hinput
    obtain ⟨hs, _⟩ := Prod.mk.inj hinput
    have hnone : (s.moveCursor dx dy).activeClient = none := hidle
    rw [← hs, hnone] at hactive
    cases hactive
  -- over an edge: the switch is sent, or takes the activation back
  · rw [hover] at hinput
    obtain ⟨c, hc⟩ := Option.isSome_iff_exists.mp
      (AList.lookup_isSome.mpr (switchTarget_registered htarget))
    have hc' : ((s.moveCursor dx dy).handedOver name).clients.lookup name = some c := hc
    obtain ⟨answer, hlog, _⟩ := sendTo_log hc' r (Message.switchToClient x y)
    unfold sendOrDeactivate at hinput
    simp only at hinput
    split at hinput
    · obtain ⟨hs, hr⟩ := Prod.mk.inj hinput
      rw [← hs, ← hr]
      exact ⟨hzero, c.tx, x, y, answer, hlog⟩
    · obtain ⟨hs, _⟩ := Prod.mk.inj hinput
      rw [← hs, deactivate_of_active (s := (s.moveCursor dx dy).handedOver name) rfl] at hactive
      cases hactive

/-- Between the switch to a client and its deactivation the client is sent what was captured: the
keys, buttons and scrolls in order and once each, every key and button behind the motion captured
before it, and no motion lost. -/
theorem faithful_forwarding (config : ServerConfig) (hsized : config.Sized) (owner : τ → String)
    (n : String) (env : Env τ) (ev : CaptureEvent) {s₀ s₁ s₂ : Server τ} {r₀ r₁ r₂ : Recorder τ}
    {ls : List (Env τ × ServerEvent τ)}
    (hreach : (Server.system config).Reach (NamedSenders owner) (s₀, r₀))
    (hidle : s₀.activeClient = none)
    (hswitch : (Server.system config).next (s₀, r₀) (env, .input ev) = some (s₁, r₁))
    (hrun : (Server.system config).Steps (Activation owner n) (s₁, r₁) ls (s₂, r₂))
    (hactive₁ : s₁.activeClient = some n) (hactive₂ : s₂.activeClient = some n)
    (haccepted : Accepted owner n (r₂.log.drop r₁.log.length)) :
    (∃ tx x y answer, r₁.log = r₀.log ++ [⟨tx, Message.switchToClient x y, answer⟩]) ∧
      Faithful (inputs ls) (queuedTo owner n (r₂.log.drop r₁.log.length)) s₂.pending := by
  obtain ⟨hcoherent, hconfig⟩ := control_reach hsized hreach
  have howned : Owned owner s₀ := owned_reach hreach
  have hhandle : s₀.handle env r₀ (.input ev) = (s₁, r₁) := Option.some.inj hswitch
  obtain ⟨hzero, hsent⟩ := switch_spec hcoherent hidle hhandle hactive₁
  refine ⟨hsent, ?_⟩
  have hs₁ : (s₀.handle env r₀ (.input ev)).1 = s₁ := congrArg Prod.fst hhandle
  have hcoherent₁ : Coherent s₁ := by
    rw [← hs₁]
    refine coherent_handle ?_ hcoherent
    rw [show s₀.config = config from hconfig]
    exact hsized
  have hconfig₁ : s₁.config = config := by
    rw [← hs₁]
    exact (handle_config ..).trans hconfig
  have howned₁ : Owned owner s₁ := by
    have h := owned_handle (p := (s₀, r₀)) (l := (env, .input ev)) howned
      (namedSenders_input (s₀, r₀) env ev)
    rw [← hs₁]
    exact h
  obtain ⟨sent, hlog, hserved⟩ :=
    serves_run hsized hrun hcoherent₁ hconfig₁ howned₁ hactive₂
  have hdrop : r₂.log.drop r₁.log.length = sent := by
    rw [show r₂.log = r₁.log ++ sent from hlog, List.drop_left]
  rw [hdrop] at haccepted ⊢
  have hstart : Faithful [] [] s₁.pending := by
    rw [hzero]
    exact Faithful.nil
  exact hserved haccepted [] [] hstart

/-- What the user does on the laptop of `leftConfig`: the motion before the key is flushed by the
key, the one after the scroll by the clock. -/
def leftInput : List (Env Unit × ServerEvent Unit) :=
  let at_ (now : Instant) (ev : CaptureEvent) : Env Unit × ServerEvent Unit :=
    (⟨now, HashOrder.entries Unit⟩, .input ev)
  [at_ 0 (.mouseMove 3 4), at_ 10 (.key 30 1), at_ 20 (.mouseScroll 0 1),
    at_ 3000000 (.mouseMove 1 1)]

theorem faithful_forwarding_left :
    ∃ p₁ p₂ : Server Unit × Recorder Unit,
      (Server.system leftConfig).exec
          (Server.new leftConfig ClipboardManager.new 0, ⟨fun _ => .ok, []⟩) (leftRun.take 2)
        = some p₁ ∧
      (Server.system leftConfig).exec p₁ leftInput = some p₂ ∧ p₂.2.log.length = 5 ∧
      Faithful (inputs leftInput)
        (queuedTo (fun _ => "laptop") "laptop" (p₂.2.log.drop p₁.2.log.length)) p₂.1.pending := by
  refine ⟨_, _, rfl, rfl, rfl, ?_⟩
  have hregister : NamedSenders (fun _ : Unit => "laptop")
      (Server.new leftConfig ClipboardManager.new 0, (⟨fun _ => .ok, []⟩ : Recorder Unit))
      (⟨0, HashOrder.entries Unit⟩, .newClient "laptop" .left 800 600 ()) := by
    intro name position w hgt tx hevent
    exact (ServerEvent.newClient.inj hevent).1
  have hinput := @namedSenders_input Unit fun _ => "laptop"
  refine And.right (faithful_forwarding leftConfig ⟨by decide, by decide⟩ (fun _ => "laptop")
    "laptop" ⟨0, HashOrder.entries Unit⟩ (.mouseMove (-1000) 0)
    ⟨_, leftRun.take 1, ⟨ClipboardManager.new, 0, rfl⟩, LTS.steps_of_exec rfl ⟨hregister, trivial⟩⟩
    rfl rfl
    (LTS.steps_of_exec rfl
      ⟨⟨hinput _ _ _, rfl⟩, ⟨hinput _ _ _, rfl⟩, ⟨hinput _ _ _, rfl⟩, ⟨hinput _ _ _, rfl⟩, trivial⟩)
    rfl rfl ?_)
  show Accepted _ _ [⟨(), _, .ok⟩, ⟨(), _, .ok⟩, ⟨(), _, .ok⟩, ⟨(), _, .ok⟩]
  simp [Accepted]

end Server

end Bluecross
