/-
# Bluecross.ServerControl — the four pieces of control state agree after every event.

Who holds control is recorded four times: in `activeClient`, in the grab of the devices, in the pause
of the clipboard and in the pending motion. `Coherent` says that they agree, that an active client is
registered, and that the cursor is inside the screen. The only function that gives control back is
`deactivate`, and the only one that gives it away is `switchTo`; the lemmas about these two carry the
proof, and every handler is a composition of them with updates that touch no piece of control.

`control_invariant` ranges over every sequence of events, every reading of the clock, every order of
the clients map and every answer of every `try_send`: the mailbox is any type with any `trySend`.
-/
import Bluecross.Lib.Transition
import Bluecross.Server

namespace Bluecross

open Lib (LTS)

/-- The pieces of control state agree, and the cursor is on the screen. -/
structure Coherent {τ : Type} (s : Server τ) : Prop where
  grabbed_iff : s.grabbed = true ↔ s.activeClient.isSome
  paused_iff : s.clipboardPaused = true ↔ s.activeClient.isSome
  registered : ∀ n, s.activeClient = some n → n ∈ s.clients
  idle : s.activeClient = none → s.pendingDx = 0 ∧ s.pendingDy = 0
  cursorX : InScreen s.mouseX s.config.screenWidth
  cursorY : InScreen s.mouseY s.config.screenHeight

/-- The clipboard content that a message brings to the server. -/
def ServerConfig.contentOf (config : ServerConfig) (msg : Message) : Option String :=
  if msg.msgType = .clipboardData then
    ((msg.payload.get "content").bind Value.asStr).filter fun _ => config.clipboardSharing
  else none

theorem ServerConfig.contentOf_of_isHandBack (config : ServerConfig) {msg : Message}
    (h : msg.isHandBack = true) : config.contentOf msg = none := by
  have htype : msg.msgType = .switchToServer := of_decide_eq_true h
  rw [contentOf, htype, if_neg nofun]

namespace Server

variable {τ χ : Type}

/-! ## Giving control back -/

theorem deactivate_of_ne {s : Server τ} {name : String} (h : s.activeClient ≠ some name) :
    s.deactivate name = s := by
  rw [deactivate, if_neg h]

/-- What `deactivate` leaves when the client is active. -/
theorem deactivate_of_active {s : Server τ} {name : String} (h : s.activeClient = some name) :
    s.deactivate name =
      { s with
        activeClient := none
        grabbed := false
        clipboardPaused := false
        mouseX := s.config.screenWidth / 2
        mouseY := s.config.screenHeight / 2
        pendingDx := 0
        pendingDy := 0 } := by
  rw [deactivate, if_pos h]
  unfold centerCursor ungrabDevices
  cases hg : s.grabbed <;> simp

@[simp]
theorem deactivate_config (s : Server τ) (name : String) :
    (s.deactivate name).config = s.config := by
  by_cases h : s.activeClient = some name
  · rw [deactivate_of_active h]
  · rw [deactivate_of_ne h]

@[simp]
theorem deactivate_clients (s : Server τ) (name : String) :
    (s.deactivate name).clients = s.clients := by
  by_cases h : s.activeClient = some name
  · rw [deactivate_of_active h]
  · rw [deactivate_of_ne h]

theorem deactivate_activeClient (s : Server τ) (name : String) :
    (s.deactivate name).activeClient
      = if s.activeClient = some name then none else s.activeClient := by
  by_cases h : s.activeClient = some name
  · rw [deactivate_of_active h, if_pos h]
  · rw [deactivate_of_ne h, if_neg h]

/-- Giving control back restores coherence, whatever the state before. -/
theorem coherent_deactivate_active {s : Server τ} {name : String} (hsized : s.config.Sized)
    (h : s.activeClient = some name) : Coherent (s.deactivate name) := by
  rw [deactivate_of_active h]
  refine ⟨by simp, by simp, ?_, fun _ => ⟨rfl, rfl⟩, ?_, ?_⟩
  · intro n hn
    cases hn
  · exact half_inScreen hsized.1
  · exact half_inScreen hsized.2

theorem coherent_deactivate {s : Server τ} {name : String} (hsized : s.config.Sized)
    (h : Coherent s) : Coherent (s.deactivate name) := by
  by_cases hactive : s.activeClient = some name
  · exact coherent_deactivate_active hsized hactive
  · rw [deactivate_of_ne hactive]
    exact h

/-! ## Giving control away -/

/-- The state in which `switchTo` sends its message. -/
def handedOver (s : Server τ) (name : String) : Server τ :=
  { s with activeClient := some name, grabbed := true, clipboardPaused := true }

variable [Mailbox χ τ]

theorem sendTo_unknown {s : Server τ} {name : String} (h : s.clients.lookup name = none) (ch : χ)
    (msg : Message) : s.sendTo ch name msg = (false, ch) := by
  unfold sendTo
  rw [h]

/-- To a registered client one attempt is made, and only `Closed` is reported as a failure. -/
theorem sendTo_registered {s : Server τ} {name : String} {client : ClientInfo τ}
    (h : s.clients.lookup name = some client) (ch : χ) (msg : Message) :
    s.sendTo ch name msg = (decide ((Mailbox.trySend ch client.tx msg).1 ≠ .closed),
      (Mailbox.trySend ch client.tx msg).2) := by
  unfold sendTo
  rw [h]
  rcases hanswer : Mailbox.trySend ch client.tx msg with ⟨_ | _ | _, ch'⟩ <;> simp only [hanswer] <;>
    rfl

/-- `switchTo` hands control over, and takes it back when the message cannot be queued. -/
theorem switchTo_eq (s : Server τ) (ch : χ) (name : String) (entryX entryY : Int32) :
    s.switchTo ch name entryX entryY =
      (s.handedOver name).sendOrDeactivate ch name (Message.switchToClient entryX entryY) := by
  have hstate : { grabDevices { s with activeClient := some name } with clipboardPaused := true }
      = s.handedOver name := by
    unfold grabDevices handedOver
    cases hg : s.grabbed <;> simp
  unfold switchTo
  rw [hstate]

theorem forwardToActive_of_none {s : Server τ} (h : s.activeClient = none) (ch : χ)
    (msg : Message) (flush : Bool) : s.forwardToActive ch msg flush = (s, ch) := by
  unfold forwardToActive
  rw [h]

/-- Forwarding sends the pending motion, if it is asked to and there is some, and then the message;
the first send that fails gives control back. -/
theorem forwardToActive_of_active {s : Server τ} {n : String} (h : s.activeClient = some n)
    (ch : χ) (msg : Message) (flush : Bool) :
    s.forwardToActive ch msg flush =
      if flush = true ∧ (s.pendingDx ≠ 0 ∨ s.pendingDy ≠ 0) then
        let sent := (s.setPending 0 0).sendTo ch n
          (Message.mouseMove s.mouseX s.mouseY s.pendingDx s.pendingDy)
        if sent.1 then (s.setPending 0 0).sendOrDeactivate sent.2 n msg
        else ((s.setPending 0 0).deactivate n, sent.2)
      else s.sendOrDeactivate ch n msg := by
  unfold forwardToActive
  rw [h]

/-- Motion is added to what is pending; when the flush is due, the sum is sent. -/
theorem forwardMotion_eq (env : Env τ) (s : Server τ) (ch : χ) (n : String) (dx dy : Int32) :
    s.forwardMotion env ch n dx dy =
      let moved := s.setPending (s.pendingDx + dx) (s.pendingDy + dy)
      if Instant.durationSince env.now s.lastFlush ≥ Duration.fromMillis 2 then
        let sent := moved.sendTo ch n
          (Message.mouseMove s.mouseX s.mouseY (s.pendingDx + dx) (s.pendingDy + dy))
        if sent.1 then ({ moved.setPending 0 0 with lastFlush := env.now }, sent.2)
        else (moved.deactivate n, sent.2)
      else (moved, ch) := rfl

theorem coherent_sendOrDeactivate {s : Server τ} {ch : χ} {name : String} {msg : Message}
    (hsized : s.config.Sized) (h : Coherent s) :
    Coherent (s.sendOrDeactivate ch name msg).1 := by
  unfold sendOrDeactivate
  simp only
  split
  · exact h
  · exact coherent_deactivate hsized h

theorem coherent_switchTo {s : Server τ} {ch : χ} {name : String} {entryX entryY : Int32}
    (hsized : s.config.Sized) (h : Coherent s) (hname : name ∈ s.clients) :
    Coherent (s.switchTo ch name entryX entryY).1 := by
  have hover : Coherent (s.handedOver name) := by
    refine ⟨by simp [handedOver], by simp [handedOver], ?_, ?_, h.cursorX, h.cursorY⟩
    · intro n hn
      cases hn
      exact hname
    · intro hn
      cases hn
  rw [switchTo_eq]
  exact coherent_sendOrDeactivate hsized hover

/-- A client whose edge is reached is registered. -/
theorem checkEdge_registered {env : Env τ} {s : Server τ} {x y : Int32}
    {name : String} {entryX entryY : Int32}
    (h : s.checkEdge env x y = some (name, entryX, entryY)) : name ∈ s.clients := by
  obtain ⟨⟨n, client⟩, hmem, hedge⟩ := List.exists_of_findSome?_eq_some h
  have hname : n = name := by
    simp only [edgeOf] at hedge
    split at hedge <;> split at hedge <;> simp_all
  subst hname
  have hclient : s.clients.lookup n = some client := env.order.mem_iff.mp hmem
  rw [← AList.lookup_isSome, hclient]
  rfl

/-- The client that captured input hands control to, with the entry point on its screen. -/
def switchTarget (env : Env τ) (s : Server τ) (ev : CaptureEvent) :
    Option (String × Int32 × Int32) :=
  match s.activeClient, ev with
  | none, .mouseMove dx dy =>
      let s := s.moveCursor dx dy
      s.checkEdge env s.mouseX s.mouseY
  | _, _ => none

theorem switchTarget_registered {env : Env τ} {s : Server τ} {ev : CaptureEvent}
    {name : String} {x y : Int32} (h : s.switchTarget env ev = some (name, x, y)) :
    name ∈ s.clients := by
  unfold switchTarget at h
  split at h
  · exact checkEdge_registered h
  · cases h

/-- Input while nobody is active: it moves the cursor at most, or it hands control over. -/
theorem handleInput_idle {s : Server τ} (h : s.activeClient = none) (env : Env τ) (ch : χ)
    (ev : CaptureEvent) :
    s.handleInput env ch ev = (s, ch) ∨
    ∃ dx dy, ev = .mouseMove dx dy ∧
      (s.handleInput env ch ev = (s.moveCursor dx dy, ch) ∨
      ∃ name x y, s.switchTarget env ev = some (name, x, y) ∧ s.handleInput env ch ev =
        ((s.moveCursor dx dy).handedOver name).sendOrDeactivate ch name
          (Message.switchToClient x y)) := by
  cases ev with
  | key code value => exact Or.inl (forwardToActive_of_none h ch _ _)
  | mouseButton code value => exact Or.inl (forwardToActive_of_none h ch _ _)
  | mouseScroll dx dy => exact Or.inl (forwardToActive_of_none h ch _ _)
  | mouseMove dx dy =>
      refine Or.inr ⟨dx, dy, rfl, ?_⟩
      have hnone : (s.moveCursor dx dy).activeClient = none := h
      unfold handleInput switchTarget
      simp only [hnone, h]
      split
      · rename_i name x y hedge
        rw [switchTo_eq]
        exact Or.inr ⟨name, x, y, hedge, rfl⟩
      · exact Or.inl rfl

/-! ## The handlers -/

/-- The pending motion may be anything while a client is active. -/
theorem coherent_setPending {s : Server τ} {dx dy : Int32} (h : Coherent s)
    (hactive : s.activeClient ≠ none) : Coherent (s.setPending dx dy) :=
  ⟨h.grabbed_iff, h.paused_iff, h.registered, fun hn => absurd hn hactive, h.cursorX, h.cursorY⟩

theorem coherent_lastFlush {s : Server τ} {t : Instant} (h : Coherent s) :
    Coherent { s with lastFlush := t } :=
  ⟨h.grabbed_iff, h.paused_iff, h.registered, h.idle, h.cursorX, h.cursorY⟩

theorem coherent_moveCursor {s : Server τ} {dx dy : Int32} (hsized : s.config.Sized)
    (h : Coherent s) : Coherent (s.moveCursor dx dy) :=
  ⟨h.grabbed_iff, h.paused_iff, h.registered, h.idle, clamp_inScreen _ hsized.1,
    clamp_inScreen _ hsized.2⟩

theorem coherent_forwardToActive {s : Server τ} {ch : χ} {msg : Message} {flush : Bool}
    (hsized : s.config.Sized) (h : Coherent s) :
    Coherent (s.forwardToActive ch msg flush).1 := by
  cases hactive : s.activeClient with
  | none =>
      rw [forwardToActive_of_none hactive]
      exact h
  | some n =>
      have hne : s.activeClient ≠ none := by rw [hactive]; nofun
      have hflushed : Coherent (s.setPending 0 0) := coherent_setPending h hne
      rw [forwardToActive_of_active hactive]
      split
      · -- the motion goes first; either send may find the client gone
        simp only
        split
        · exact coherent_sendOrDeactivate hsized hflushed
        · exact coherent_deactivate hsized hflushed
      · exact coherent_sendOrDeactivate hsized h

theorem coherent_forwardMotion {env : Env τ} {s : Server τ} {ch : χ} {n : String}
    {dx dy : Int32} (hsized : s.config.Sized) (h : Coherent s)
    (hactive : s.activeClient = some n) :
    Coherent (s.forwardMotion env ch n dx dy).1 := by
  have hne : s.activeClient ≠ none := by rw [hactive]; nofun
  have hmoved : Coherent (s.setPending (s.pendingDx + dx) (s.pendingDy + dy)) :=
    coherent_setPending h hne
  rw [forwardMotion_eq]
  simp only
  split
  · split
    · exact coherent_lastFlush (coherent_setPending hmoved hne)
    · exact coherent_deactivate hsized hmoved
  · exact hmoved

theorem coherent_handleInput {env : Env τ} {s : Server τ} {ch : χ} {ev : CaptureEvent}
    (hsized : s.config.Sized) (h : Coherent s) : Coherent (s.handleInput env ch ev).1 := by
  cases ev with
  | key code value => exact coherent_forwardToActive hsized h
  | mouseButton code value => exact coherent_forwardToActive hsized h
  | mouseScroll dx dy => exact coherent_forwardToActive hsized h
  | mouseMove dx dy =>
      have hmoved : Coherent (s.moveCursor dx dy) := coherent_moveCursor hsized h
      unfold handleInput
      simp only
      split
      · rename_i n hactive
        exact coherent_forwardMotion hsized hmoved hactive
      · split
        · rename_i hedge
          exact coherent_switchTo hsized hmoved (checkEdge_registered hedge)
        · exact hmoved

theorem coherent_handleClientMessage {env : Env τ} {s : Server τ} {ch : χ} {name : String}
    {msg : Message} (hsized : s.config.Sized) (h : Coherent s) :
    Coherent (s.handleClientMessage env ch name msg).1 := by
  unfold handleClientMessage
  split
  · split
    · exact coherent_deactivate hsized h
    · exact h
  · split
    · exact ⟨h.grabbed_iff, h.paused_iff, h.registered, h.idle, h.cursorX, h.cursorY⟩
    · exact h
  · exact h

/-- Removing a client keeps the active one registered, unless it is the client removed. -/
theorem coherent_handleClientDisconnect {s : Server τ} {name : String}
    (hsized : s.config.Sized) (h : Coherent s) : Coherent (s.handleClientDisconnect name) := by
  unfold handleClientDisconnect
  by_cases hactive : s.activeClient = some name
  · exact coherent_deactivate_active hsized hactive
  · rw [deactivate_of_ne (by exact hactive)]
    refine ⟨h.grabbed_iff, h.paused_iff, ?_, h.idle, h.cursorX, h.cursorY⟩
    intro n hn
    refine AList.mem_erase.mpr ⟨?_, h.registered n hn⟩
    intro heq
    rw [← heq] at hactive
    exact hactive hn

/-- One event. -/
theorem coherent_handle {env : Env τ} {s : Server τ} {ch : χ} {event : ServerEvent τ}
    (hsized : s.config.Sized) (h : Coherent s) : Coherent (s.handle env ch event).1 := by
  cases event with
  | input ev => exact coherent_handleInput hsized h
  | newClient name position w hgt tx =>
      refine ⟨h.grabbed_iff, h.paused_iff, ?_, h.idle, h.cursorX, h.cursorY⟩
      intro n hn
      exact (AList.mem_insert _).mpr (Or.inr (h.registered n hn))
  | clientMessage name msg => exact coherent_handleClientMessage hsized h
  | clientDisconnected name => exact coherent_handleClientDisconnect hsized h
  | clipboardChanged content => exact h

/-! ## What the handlers leave alone -/

/-- Two servers that differ in control state only: neither the configuration nor the clients. -/
structure Frame (s s' : Server τ) : Prop where
  config : s'.config = s.config
  clients : s'.clients = s.clients

theorem Frame.refl (s : Server τ) : Frame s s := ⟨rfl, rfl⟩

theorem Frame.trans {s s' s'' : Server τ} (h : Frame s s') (h' : Frame s' s'') : Frame s s'' :=
  ⟨h'.config.trans h.config, h'.clients.trans h.clients⟩

theorem frame_deactivate (s : Server τ) (name : String) : Frame s (s.deactivate name) :=
  ⟨deactivate_config s name, deactivate_clients s name⟩

theorem frame_sendOrDeactivate (s : Server τ) (ch : χ) (name : String) (msg : Message) :
    Frame s (s.sendOrDeactivate ch name msg).1 := by
  unfold sendOrDeactivate
  simp only
  split
  · exact Frame.refl s
  · exact frame_deactivate s name

theorem frame_forwardToActive (s : Server τ) (ch : χ) (msg : Message) (flush : Bool) :
    Frame s (s.forwardToActive ch msg flush).1 := by
  cases hactive : s.activeClient with
  | none =>
      rw [forwardToActive_of_none hactive]
      exact Frame.refl s
  | some n =>
      have hpending : Frame s (s.setPending 0 0) := ⟨rfl, rfl⟩
      rw [forwardToActive_of_active hactive]
      split
      · simp only
        split
        · exact hpending.trans (frame_sendOrDeactivate _ _ n msg)
        · exact hpending.trans (frame_deactivate _ n)
      · exact frame_sendOrDeactivate s ch n msg

theorem frame_handleInput (env : Env τ) (s : Server τ) (ch : χ) (ev : CaptureEvent) :
    Frame s (s.handleInput env ch ev).1 := by
  cases ev with
  | key code value => exact frame_forwardToActive s ch _ _
  | mouseButton code value => exact frame_forwardToActive s ch _ _
  | mouseScroll dx dy => exact frame_forwardToActive s ch _ _
  | mouseMove dx dy =>
      have hmoved : Frame s (s.moveCursor dx dy) := ⟨rfl, rfl⟩
      unfold handleInput
      simp only
      split
      · rename_i n _
        have hpending : Frame s ((s.moveCursor dx dy).setPending
            ((s.moveCursor dx dy).pendingDx + dx) ((s.moveCursor dx dy).pendingDy + dy)) :=
          ⟨rfl, rfl⟩
        rw [forwardMotion_eq]
        simp only
        split
        · split
          · exact ⟨rfl, rfl⟩
          · exact hpending.trans (frame_deactivate _ n)
        · exact hpending
      · split
        · rename_i name _ _ _
          have hover : Frame s ((s.moveCursor dx dy).handedOver name) := ⟨rfl, rfl⟩
          rw [switchTo_eq]
          exact hover.trans (frame_sendOrDeactivate _ _ _ _)
        · exact hmoved

theorem frame_handleClientMessage (env : Env τ) (s : Server τ) (ch : χ) (name : String)
    (msg : Message) : Frame s (s.handleClientMessage env ch name msg).1 := by
  unfold handleClientMessage
  split
  · split
    · exact frame_deactivate s name
    · exact Frame.refl s
  · split
    · exact ⟨rfl, rfl⟩
    · exact Frame.refl s
  · exact Frame.refl s

/-- The clients after an event: a registration and a disconnect change them, nothing else does. -/
def clientsAfter (clients : Clients τ) : ServerEvent τ → Clients τ
  | .newClient name position screenWidth screenHeight tx =>
      clients.insert name ⟨position, screenWidth, screenHeight, tx⟩
  | .clientDisconnected name => clients.erase name
  | _ => clients

/-- A client found after an event was there before, or the event registered it. -/
theorem lookup_clientsAfter {clients : Clients τ} {event : ServerEvent τ} {name : String}
    {client : ClientInfo τ} (h : (clientsAfter clients event).lookup name = some client) :
    clients.lookup name = some client ∨
      event = .newClient name client.position client.screenWidth client.screenHeight client.tx := by
  cases event with
  | input ev => exact Or.inl h
  | clientMessage m msg => exact Or.inl h
  | clipboardChanged content => exact Or.inl h
  | newClient m position w hgt tx =>
      by_cases hm : name = m
      · subst hm
        rw [clientsAfter, AList.lookup_insert] at h
        rw [← Option.some.inj h]
        exact Or.inr rfl
      · rw [clientsAfter, AList.lookup_insert_ne hm] at h
        exact Or.inl h
  | clientDisconnected m =>
      by_cases hm : name = m
      · subst hm
        rw [clientsAfter, AList.lookup_erase] at h
        cases h
      · rw [clientsAfter, AList.lookup_erase_ne hm] at h
        exact Or.inl h

theorem handle_clients (env : Env τ) (s : Server τ) (ch : χ) (event : ServerEvent τ) :
    (s.handle env ch event).1.clients = clientsAfter s.clients event := by
  cases event with
  | input ev => exact (frame_handleInput env s ch ev).clients
  | newClient name position w hgt tx => rfl
  | clientMessage name msg => exact (frame_handleClientMessage env s ch name msg).clients
  | clientDisconnected name => exact deactivate_clients _ name
  | clipboardChanged content => rfl

theorem handle_config (env : Env τ) (s : Server τ) (ch : χ) (event : ServerEvent τ) :
    (s.handle env ch event).1.config = s.config := by
  cases event with
  | input ev => exact (frame_handleInput env s ch ev).config
  | newClient name position w hgt tx => rfl
  | clientMessage name msg => exact (frame_handleClientMessage env s ch name msg).config
  | clientDisconnected name => exact deactivate_config _ name
  | clipboardChanged content => rfl

/-- A message from a client is handled in one of three ways. -/
theorem handleClientMessage_cases (env : Env τ) (s : Server τ) (ch : χ) (n : String)
    (msg : Message) :
    (msg.isHandBack = true ∧ s.handleClientMessage env ch n msg = (s.deactivate n, ch)) ∨
    (∃ content, s.config.contentOf msg = some content ∧
      s.handleClientMessage env ch n msg =
        ({ s with clipboard := s.clipboard.set content },
          s.sendEach (Message.clipboardData content) ch ((s.names env).filter fun m => m ≠ n))) ∨
    (msg.isHandBack = false ∧ s.config.contentOf msg = none ∧
      s.handleClientMessage env ch n msg = (s, ch)) := by
  unfold handleClientMessage Message.isHandBack ServerConfig.contentOf
  rcases htype : msg.msgType
  case switchToServer =>
    refine Or.inl ⟨rfl, ?_⟩
    simp only
    split
    · rfl
    · rename_i hne
      rw [deactivate_of_ne hne]
  case clipboardData =>
    refine Or.inr ?_
    simp only [if_true]
    split
    · rename_i content hcontent
      exact Or.inl ⟨content, hcontent, rfl⟩
    · rename_i hnone
      exact Or.inr ⟨rfl, hnone, rfl⟩
  all_goals exact Or.inr (Or.inr ⟨rfl, rfl, rfl⟩)

/-- The queue of the active client. -/
def activeTx (s : Server τ) : Option τ :=
  s.activeClient.bind fun n => (s.clients.lookup n).map ClientInfo.tx

/-! ## Whole runs -/

/-- The event loop: the server starts from `Server::new`, and each step handles one event. -/
def system (config : ServerConfig) : LTS (Server τ × χ) (Env τ × ServerEvent τ) where
  init p := ∃ clipboard now, p.1 = Server.new config clipboard now
  next p l := some (p.1.handle l.1 p.2 l.2)

theorem coherent_new {config : ServerConfig} (hsized : config.Sized)
    (clipboard : ClipboardManager) (now : Instant) :
    Coherent (Server.new config clipboard now : Server τ) := by
  refine ⟨by simp [new], by simp [new], ?_, fun _ => ⟨rfl, rfl⟩, half_inScreen hsized.1,
    half_inScreen hsized.2⟩
  intro n hn
  cases hn

theorem control_reach {config : ServerConfig} (hsized : config.Sized)
    {G : Server τ × χ → Env τ × ServerEvent τ → Prop} {p : Server τ × χ}
    (h : (Server.system config).Reach G p) : Coherent p.1 ∧ p.1.config = config := by
  refine LTS.Reach.invariant (I := fun p => Coherent p.1 ∧ p.1.config = config) ?_ ?_ h
  · rintro ⟨s₀, ch₀⟩ ⟨clipboard, now, hnew⟩
    have hs₀ : s₀ = Server.new config clipboard now := hnew
    rw [hs₀]
    exact ⟨coherent_new hsized clipboard now, rfl⟩
  · rintro ⟨s₁, ch₁⟩ ⟨env, event⟩ p ⟨hcoh, hconfig⟩ _ hnext
    have hp : s₁.handle env ch₁ event = p := Option.some.inj hnext
    have hsized₁ : s₁.config.Sized := by
      rw [show s₁.config = config from hconfig]
      exact hsized
    rw [← hp]
    exact ⟨coherent_handle hsized₁ hcoh, (handle_config env s₁ ch₁ event).trans hconfig⟩

/-- After every event of every run the pieces of control state agree and the cursor is on the
screen, whatever the clock, the order of the map and the outbound queues do. -/
theorem control_invariant (config : ServerConfig) (hsized : config.Sized) (s : Server τ) (ch : χ)
    (h : (Server.system config).Reach LTS.anyStep (s, ch)) : Coherent s :=
  (control_reach hsized h).1

/-- A server with one client, to the left of a screen of 640 by 480. -/
def leftConfig : ServerConfig where
  host := "127.0.0.1"
  port := 12345
  screenWidth := 640
  screenHeight := 480
  edgeThreshold := 5
  clipboardSharing := true
  psk := ""
  clients := AList.singleton "laptop" .left

/-- The laptop at the left and a tablet at the right. -/
def pairConfig : ServerConfig :=
  { leftConfig with clients := (AList.singleton "tablet" ScreenPosition.right).insert "laptop" .left }

/-- The client connects, the cursor is pushed over the left edge, and the client goes away. -/
def leftRun : List (Env Unit × ServerEvent Unit) :=
  let env : Env Unit := ⟨0, HashOrder.entries Unit⟩
  [(env, .newClient "laptop" .left 800 600 ()), (env, .input (.mouseMove (-1000) 0)),
    (env, .clientDisconnected "laptop")]

/-- The run of `leftRun` in which the queue accepts the first message. -/
theorem control_invariant_left :
    ∃ s ch, (Server.system leftConfig).exec
        (Server.new leftConfig ClipboardManager.new 0, (⟨fun _ => .ok, []⟩ : Recorder Unit)) leftRun
          = some (s, ch) ∧ ch.log.length = 1 ∧ Coherent s := by
  refine ⟨_, _, rfl, rfl, ?_⟩
  exact control_invariant leftConfig ⟨by decide, by decide⟩ _ (_ : Recorder Unit)
    ⟨_, leftRun, ⟨ClipboardManager.new, 0, rfl⟩, LTS.steps_of_exec rfl (LTS.guarded_anyStep _ _)⟩

end Server

end Bluecross
