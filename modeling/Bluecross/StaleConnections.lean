/-
# Bluecross.StaleConnections — what a connection can still say when it is not registered any more.

A reader task outlives the registration of its connection: removing or replacing the entry drops the
sender of the outgoing queue and leaves the reader alone. Its messages carry the name and nothing
else, so the event loop takes them for messages of whatever is registered under the name by then.

A connection is `Stale` when its `NewClient` was handled and it is not registered. It stays so in
every later state (`Stale.step`). `stale_message` bounds what handling one of its messages can do, in
any state that a run reaches, and `stale_hand_back` is a run in which a replaced connection takes
control from the one that replaced it.
-/
import Bluecross.Registration

namespace Bluecross

open Lib (LTS)

namespace System

variable {s s' : System} {c : ConnId} {n : String} {msg : Message} {env : Env ConnId} {e : Event}
  {events : List Event}

/-- The connection was registered, and was removed or replaced since. -/
structure Stale (s : System) (c : ConnId) : Prop where
  known : ¬ s.Fresh c
  gone : ¬ s.Registered c

/-- Nothing that a client has a say in differs between two states. -/
structure SameSay (s s' : System) : Prop where
  clients : s'.server.clients = s.server.clients
  activeClient : s'.server.activeClient = s.server.activeClient
  grabbed : s'.server.grabbed = s.server.grabbed
  mouseX : s'.server.mouseX = s.server.mouseX
  mouseY : s'.server.mouseY = s.server.mouseY
  clipboard : s'.server.clipboard = s.server.clipboard
  conns : s'.conns = s.conns

theorem SameSay.of_eq (hserver : s'.server = s.server) (hconns : s'.conns = s.conns) :
    SameSay s s' := by
  refine ⟨?_, ?_, ?_, ?_, ?_, ?_, hconns⟩
  all_goals rw [hserver]

/-! ## Once stale, always stale -/

/-- A connection that is registered after a step was before, or its `NewClient` was handled. -/
theorem registered_of_step {l : Label} (hwired : Wired s) (hstep : s.Step l s')
    (h : s'.Registered c) : s.Registered c ∨ s.Fresh c := by
  cases hstep with
  | accept => exact Or.inl h
  | conn => exact Or.inl h
  | stopWriter => exact Or.inl h
  | emit => exact Or.inl h
  | capture => exact Or.inl h
  | copied => exact Or.inl h
  | serve hevents =>
      obtain ⟨name, client, hclient, rfl⟩ := h
      rcases lookup_of_served hwired hevents hclient with hbefore | ⟨hsource, _⟩
      · exact Or.inl ⟨name, client, hbefore, rfl⟩
      · exact Or.inr (fresh_of_first hevents hsource)

/-- No step makes a connection fresh. -/
theorem fresh_of_step {l : Label} (hstep : s.Step l s') (h : s'.Fresh c) : s.Fresh c := by
  cases hstep with
  | accept hphase =>
      refine fresh_of_setConn ?_ h
      rw [hphase]
      nofun
  | conn hk =>
      refine fresh_of_setConn ?_ h
      rw [hk.identity.phase]
      exact id
  | @stopWriter c' =>
      refine fresh_of_setConn (c := c') ?_ h
      exact id
  | emit hk => exact fresh_of_emitted hk h
  | capture =>
      rcases fresh_of_push h with hbefore | hsource
      · exact hbefore
      · cases hsource
  | copied =>
      rcases fresh_of_push h with hbefore | hsource
      · exact hbefore
      · cases hsource
  | serve hevents => exact fresh_of_served hevents h

theorem Stale.step {l : Label} (h : s.Stale c) (hwired : Wired s) (hstep : s.Step l s') :
    s'.Stale c := by
  refine ⟨fun hfresh => h.known (fresh_of_step hstep hfresh), ?_⟩
  intro hregistered
  rcases registered_of_step hwired hstep hregistered with hbefore | hfresh
  · exact h.gone hbefore
  · exact h.known hfresh

theorem Stale.steps {ls : List Label} {config : ServerConfig} (h : s.Stale c) (hwired : Wired s)
    (hsteps : (System.lts config).Steps LTS.anyStep s ls s') : s'.Stale c := by
  have hboth : Wired s' ∧ s'.Stale c := by
    refine hsteps.invariant (I := fun s => Wired s ∧ s.Stale c) ?_ ⟨hwired, h⟩
    rintro s l s' ⟨hwired, hstale⟩ _ hnext
    have hstep := step_of_next hnext
    exact ⟨hwired.step hstep, hstale.step hwired hstep⟩
  exact hboth.2

/-- Whoever sent a message is registered under the name the message carries, or stale. -/
theorem Wired.stale_of_message (hwired : Wired s)
    (hevents : s.events = ⟨.reader c, .clientMessage n msg⟩ :: events) (hgone : ¬ s.Holds c n) :
    s.Stale c := by
  have hname : (s.conns c).name = n := by
    cases hwired.first hevents
    rfl
  refine ⟨?_, ?_⟩
  · intro hfresh
    cases hwired.first_of_fresh hevents hfresh rfl
  · rintro ⟨name, client, hclient, rfl⟩
    have hsame := (hwired.registered name client hclient).2
    rw [hname] at hsame
    subst hsame
    exact hgone ⟨client, hclient, rfl⟩

/-! ## What a message does -/

/-- A message to some of the other clients is queued at other clients only. -/
theorem appends_sendEach_except (s : Server ConnId) (n : String) {P : Message → Prop}
    (hmsg : P msg) (conns : Conns) {names : List String} (hnames : ∀ m ∈ names, m ≠ n) :
    Appends (s.clients.erase n) P conns (s.sendEach msg conns names) := by
  induction names generalizing conns with
  | nil => exact Appends.refl _ conns
  | cons m names ih =>
      have hne : m ≠ n := hnames m (List.mem_cons_self ..)
      have hlater := fun m' hm' => hnames m' (List.mem_cons_of_mem m hm')
      refine Appends.trans ?_ (ih (s.sendTo conns m msg).2 hlater)
      rcases hclient : s.clients.lookup m with _ | client
      · rw [Server.sendTo_unknown hclient]
        exact Appends.refl _ conns
      · rw [Server.sendTo_registered hclient]
        have herased : (s.clients.erase n).lookup m = some client := by
          rw [AList.lookup_erase_ne hne]
          exact hclient
        exact appends_trySend conns herased hmsg

/-- Clipboard content from a name is queued, alone, at clients of other names. -/
theorem sendEach_others (s : System) (env : Env ConnId) (n content : String) (d : ConnId) :
    ∃ more, s.server.sendEach (Message.clipboardData content) s.conns
          ((s.server.names env).filter fun m => m ≠ n) d
        = { s.conns d with queue := (s.conns d).queue ++ more } ∧
      (∀ m ∈ more, m = Message.clipboardData content) ∧
      (more ≠ [] → ∃ m, m ≠ n ∧ s.Holds d m) := by
  have hothers : ∀ m ∈ (s.server.names env).filter (fun m => m ≠ n), m ≠ n :=
    fun m hm => of_decide_eq_true (List.mem_filter.mp hm).2
  obtain ⟨more, hd, hall, hto⟩ := appends_sendEach_except s.server n
    (P := fun m => m = Message.clipboardData content) rfl s.conns hothers d
  refine ⟨more, hd, hall, ?_⟩
  intro hmore
  obtain ⟨m, client, hclient, rfl⟩ := hto hmore
  have hne : m ≠ n := by
    rintro rfl
    rw [AList.lookup_erase] at hclient
    cases hclient
  rw [AList.lookup_erase_ne hne] at hclient
  exact ⟨m, hne, client, hclient, rfl⟩

/-- A client is active under the name, so some connection is registered under it. -/
theorem held_by_other (hcoherent : Coherent s.server) (hactive : s.server.activeClient = some n)
    (hgone : ¬ s.Holds c n) : ∃ d, d ≠ c ∧ s.Holds d n := by
  obtain ⟨client, hclient⟩ := Option.isSome_iff_exists.mp
    (AList.lookup_isSome.mpr (hcoherent.registered n hactive))
  have hholds : s.Holds client.tx n := ⟨client, hclient, rfl⟩
  refine ⟨client.tx, ?_, hholds⟩
  rintro rfl
  exact hgone hholds

/-- A connection that is stale before a step is registered in no state after it. -/
theorem Stale.never {l : Label} (config : ServerConfig) (h : s.Stale c) (hwired : Wired s)
    (hstep : s.Step l s') (ls : List Label) (t : System)
    (hsteps : (System.lts config).Steps LTS.anyStep s' ls t) : ¬ t.Registered c :=
  ((h.step hwired hstep).steps (hwired.step hstep) hsteps).gone

/-! ## The bound -/

/-- The registered clients stay. The say of a stale connection is a hand-back in the name of the active
client, which another connection then has, and clipboard content, which the clients of other names are
sent; without one of them nothing changes. The connection is never registered again. -/
theorem stale_message (config : ServerConfig) (hsized : config.Sized) (s s' : System)
    (env : Env ConnId) (c : ConnId) (n : String) (msg : Message) (events : List Event)
    (hreach : (System.lts config).Reach LTS.anyStep s)
    (hevents : s.events = ⟨.reader c, .clientMessage n msg⟩ :: events) (hgone : ¬ s.Holds c n)
    (hnext : s.next (.serve env) = some s') :
    s'.server.clients = s.server.clients ∧
    (¬ (msg.isHandBack = true ∧ s.server.activeClient = some n) → config.contentOf msg = none →
      SameSay s s') ∧
    (msg.isHandBack = true → s.server.activeClient = some n →
      (∃ d, d ≠ c ∧ s.Holds d n) ∧ s'.conns = s.conns ∧
      s'.server = { s.server with
        activeClient := none
        grabbed := false
        clipboardPaused := false
        mouseX := s.server.config.screenWidth / 2
        mouseY := s.server.config.screenHeight / 2
        pendingDx := 0
        pendingDy := 0 }) ∧
    (∀ content, config.contentOf msg = some content →
      s'.server = { s.server with clipboard := s.server.clipboard.set content } ∧
      ∀ d, ∃ more, s'.conns d = { s.conns d with queue := (s.conns d).queue ++ more } ∧
        (∀ m ∈ more, m = Message.clipboardData content) ∧
        (more ≠ [] → ∃ m, m ≠ n ∧ s.Holds d m)) ∧
    ∀ ls t, (System.lts config).Steps LTS.anyStep s' ls t → ¬ t.Registered c := by
  have hsound := sound_reach hsized hreach
  have hconfig := hsound.config_eq
  subst hconfig
  have hstale := hsound.wired.stale_of_message hevents hgone
  have hforever := hstale.never s.server.config hsound.wired (step_of_next hnext)
  rw [next_serve env hevents] at hnext
  cases hnext
  have hhandle : (s.server.handle env s.conns (.clientMessage n msg)) =
      s.server.handleClientMessage env s.conns n msg := rfl
  rcases Server.handleClientMessage_cases env s.server s.conns n msg with
    ⟨hback, hdone⟩ | ⟨content, hcontent, hdone⟩ | ⟨hback, hcontent, hdone⟩
  -- a hand-back: it counts when the name is the active one
  · have hserver := congrArg Prod.fst (hhandle.trans hdone)
    have hconns := congrArg Prod.snd (hhandle.trans hdone)
    refine ⟨served_clients, ?_, ?_, ?_, hforever⟩
    · intro hnot _
      have hne : s.server.activeClient ≠ some n := fun hactive => hnot ⟨hback, hactive⟩
      exact SameSay.of_eq (hserver.trans (Server.deactivate_of_ne hne)) hconns
    · intro _ hactive
      exact ⟨held_by_other hsound.coherent hactive hgone, hconns,
        hserver.trans (Server.deactivate_of_active hactive)⟩
    · intro content hcontent
      rw [s.server.config.contentOf_of_isHandBack hback] at hcontent
      cases hcontent
  -- clipboard content: it is set, and goes to the other names
  · have hserver := congrArg Prod.fst (hhandle.trans hdone)
    have hconns := congrArg Prod.snd (hhandle.trans hdone)
    refine ⟨served_clients, ?_, ?_, ?_, hforever⟩
    · intro _ hnone
      rw [hcontent] at hnone
      cases hnone
    · intro hback _
      rw [s.server.config.contentOf_of_isHandBack hback] at hcontent
      cases hcontent
    · intro content' hcontent'
      rw [hcontent] at hcontent'
      cases hcontent'
      refine ⟨hserver, ?_⟩
      intro d
      obtain ⟨more, hd, hmore⟩ := sendEach_others s env n content d
      exact ⟨more, (congrFun hconns d).trans hd, hmore⟩
  -- anything else is dropped
  · have hserver := congrArg Prod.fst (hhandle.trans hdone)
    have hconns := congrArg Prod.snd (hhandle.trans hdone)
    refine ⟨served_clients, fun _ _ => SameSay.of_eq hserver hconns, ?_, ?_, hforever⟩
    · intro hback' _
      rw [hback] at hback'
      cases hback'
    · intro content hcontent'
      rw [hcontent] at hcontent'
      cases hcontent'

/-- The laptop connects again under its name, the second connection is handed control, and a
`SwitchToServer` arrives on the first. -/
def lateHandBack : List Label :=
  let env : Env ConnId := ⟨0, HashOrder.entries ConnId⟩
  reconnect ++ [.serve env, .capture (.mouseMove (-1000) 0), .serve env,
    .conn 0 (.send Message.switchToServer), .emit 0 .readerDeliver]

/-- The state of `lateHandBack` in which the message is handled next. -/
def handedBackLate : System :=
  ((System.lts Server.leftConfig).exec (System.new Server.leftConfig ClipboardManager.new 0)
    lateHandBack).getD (System.new Server.leftConfig ClipboardManager.new 0)

theorem handedBackLate_reach : (System.lts Server.leftConfig).Reach LTS.anyStep handedBackLate :=
  ⟨_, lateHandBack, ⟨ClipboardManager.new, 0, rfl⟩,
    LTS.steps_of_exec rfl (LTS.guarded_anyStep _ _)⟩

/-- The second connection is the one registered. -/
theorem handedBackLate_gone : ¬ handedBackLate.Holds 0 "laptop" := by
  rintro ⟨client, hclient, htx⟩
  have hsecond : handedBackLate.server.clients.lookup "laptop" = some ⟨.left, 800, 600, 1⟩ := rfl
  rw [hsecond] at hclient
  cases hclient
  cases htx

/-- The connection that was replaced takes control from the one that replaced it. -/
theorem stale_hand_back :
    ¬ ∀ (config : ServerConfig), config.Sized → ∀ (s s' : System) (env : Env ConnId) (c : ConnId)
      (n : String) (msg : Message) (events : List Event),
      (System.lts config).Reach LTS.anyStep s →
      s.events = ⟨.reader c, .clientMessage n msg⟩ :: events → ¬ s.Holds c n →
      s.next (.serve env) = some s' → SameSay s s' := by
  intro hall
  have hsame := hall Server.leftConfig ⟨by decide, by decide⟩ handedBackLate _
    ⟨0, HashOrder.entries ConnId⟩ 0 "laptop" Message.switchToServer [] handedBackLate_reach rfl
    handedBackLate_gone rfl
  have hactive : (none : Option String) = some "laptop" := hsame.activeClient
  cases hactive

theorem stale_message_lateHandBack :
    ∃ s', handedBackLate.next (.serve ⟨0, HashOrder.entries ConnId⟩) = some s' ∧
      s'.server.clients = handedBackLate.server.clients ∧ ¬ s'.Registered 0 := by
  obtain ⟨s', hnext⟩ : ∃ s', handedBackLate.next (.serve ⟨0, HashOrder.entries ConnId⟩) = some s' :=
    ⟨_, rfl⟩
  obtain ⟨hclients, _, _, _, hforever⟩ := stale_message Server.leftConfig ⟨by decide, by decide⟩
    handedBackLate s' ⟨0, HashOrder.entries ConnId⟩ 0 "laptop" Message.switchToServer []
    handedBackLate_reach rfl handedBackLate_gone hnext
  exact ⟨s', hnext, hclients, hforever [] s' (.nil s')⟩

end System

end Bluecross
