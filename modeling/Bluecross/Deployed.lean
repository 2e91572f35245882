/-
# Bluecross.Deployed — the server with the programs of its clients.

`Deployed` is the system with the tasks of every client in the place of its client. The steps of the
server, of its connections' tasks and of the wires are those of `System`; the client side of a
connection moves by `ClientTasks` alone. `deployed_simulates` says that `System` can do what `Deployed`
does, with the same steps of the server in the same order and with clients that keep the rules of
`ConnStep.Honest`. So what is proved of every run of `System` is known of the programs as they run,
also in the middle of a batch.

The server sees the client side of a connection through `try_send` only: its handlers commute with any
change of the queues that answers alike (`handle_natural`).
-/
import Bluecross.ClientProgram
import Bluecross.Lib.Settling
import Bluecross.SessionDiscipline

namespace Bluecross

open Lib (LTS)

/-! ## Handlers and their queues -/

namespace Server

variable {χ χ' τ : Type} [Mailbox χ τ] [Mailbox χ' τ]

/-- Queues that answer as their images do. -/
def AnswersAlike (g : χ → χ') : Prop :=
  ∀ (ch : χ) (tx : τ) (msg : Message),
    Mailbox.trySend (g ch) tx msg = Prod.map id g (Mailbox.trySend ch tx msg)

variable {g : χ → χ'} {s : Server τ}

theorem sendTo_natural (hg : AnswersAlike g) (s : Server τ) (ch : χ) (name : String)
    (msg : Message) : s.sendTo (g ch) name msg = Prod.map id g (s.sendTo ch name msg) := by
  unfold sendTo
  split
  · rename_i client _
    rw [hg]
    rcases Mailbox.trySend ch client.tx msg with ⟨_ | _ | _, ch'⟩ <;> rfl
  · rfl

theorem sendOrDeactivate_natural (hg : AnswersAlike g) (s : Server τ) (ch : χ) (name : String)
    (msg : Message) :
    s.sendOrDeactivate (g ch) name msg = Prod.map id g (s.sendOrDeactivate ch name msg) := by
  unfold sendOrDeactivate
  simp only [sendTo_natural hg, Prod.map_fst, Prod.map_snd, id]
  split <;> rfl

theorem forwardToActive_natural (hg : AnswersAlike g) (s : Server τ) (ch : χ) (msg : Message)
    (flush : Bool) :
    s.forwardToActive (g ch) msg flush = Prod.map id g (s.forwardToActive ch msg flush) := by
  unfold forwardToActive
  split
  · rfl
  · split
    · simp only [sendTo_natural hg, sendOrDeactivate_natural hg, Prod.map_fst, Prod.map_snd, id]
      split <;> rfl
    · exact sendOrDeactivate_natural hg s ch _ msg

theorem forwardMotion_natural (hg : AnswersAlike g) (env : Env τ) (s : Server τ) (ch : χ)
    (name : String) (dx dy : Int32) :
    s.forwardMotion env (g ch) name dx dy = Prod.map id g (s.forwardMotion env ch name dx dy) := by
  unfold forwardMotion
  simp only [sendTo_natural hg, Prod.map_fst, Prod.map_snd, id]
  split
  · split <;> rfl
  · rfl

theorem handleInput_natural (hg : AnswersAlike g) (env : Env τ) (s : Server τ) (ch : χ)
    (ev : CaptureEvent) : s.handleInput env (g ch) ev = Prod.map id g (s.handleInput env ch ev) := by
  cases ev with
  | key code value => exact forwardToActive_natural hg s ch _ true
  | mouseButton code value => exact forwardToActive_natural hg s ch _ true
  | mouseScroll dx dy => exact forwardToActive_natural hg s ch _ false
  | mouseMove dx dy =>
      unfold handleInput
      simp only
      split
      · exact forwardMotion_natural hg env _ ch _ dx dy
      · split
        · exact sendOrDeactivate_natural hg _ ch _ _
        · rfl

theorem sendEach_natural (hg : AnswersAlike g) (s : Server τ) (msg : Message) (ch : χ)
    (names : List String) : s.sendEach msg (g ch) names = g (s.sendEach msg ch names) := by
  induction names generalizing ch with
  | nil => rfl
  | cons name names ih =>
      show s.sendEach msg (s.sendTo (g ch) name msg).2 names = _
      rw [sendTo_natural hg]
      exact ih (s.sendTo ch name msg).2

theorem handle_natural (hg : AnswersAlike g) (env : Env τ) (s : Server τ) (ch : χ)
    (event : ServerEvent τ) : s.handle env (g ch) event = Prod.map id g (s.handle env ch event) := by
  cases event with
  | input ev => exact handleInput_natural hg env s ch ev
  | newClient name position w hgt tx => rfl
  | clientDisconnected name => rfl
  | clipboardChanged content =>
      show (s, s.broadcastClipboard env (g ch) content) = (s, g (s.broadcastClipboard env ch content))
      unfold broadcastClipboard
      split
      · rfl
      · rw [sendEach_natural hg]
  | clientMessage name msg =>
      show s.handleClientMessage env (g ch) name msg
        = Prod.map id g (s.handleClientMessage env ch name msg)
      unfold handleClientMessage
      split
      · split <;> rfl
      · split
        · simp only [sendEach_natural hg, Prod.map_apply, id]
        · rfl
      · rfl

end Server

/-! ## The system with the tasks of its clients -/

/-- Whether a step of `System` is not one of a client program. -/
def Label.byServer : Label → Bool
  | .conn _ step => ! step.byClient
  | _ => true

/-- The clients keep the rules of the client program. -/
def Label.Honest : Label → Prop
  | .conn _ step => step.Honest
  | _ => True

/-- In `system`, `down` is the wire before the reader, `client` what the main task owns. -/
structure Deployed where
  system : System
  tasks : ConnId → ClientTasks

/-- A step of the server's machine, or of a task of a client. -/
inductive DeployedLabel where
  | server (l : Label)
  | client (c : ConnId) (step : TaskStep)

/-- The steps of the server, as `System` has them. -/
def Label.shown (l : Label) : List Label := if l.byServer then [l] else []

/-- The steps of the server are shown. -/
def DeployedLabel.shown : DeployedLabel → List Label
  | .server l => [l]
  | .client _ _ => []

namespace Deployed

/-- A client that gets in starts its tasks. -/
def started (tasks : ConnId → ClientTasks) : Label → ConnId → ClientTasks
  | .accept c _ _ _ _ => Function.update tasks c ClientTasks.new
  | _ => tasks

/-- The server takes a step of the system; a client's task takes one of its own. -/
def next (d : Deployed) : DeployedLabel → Option Deployed
  | .server l =>
      if l.byServer then
        (d.system.next l).map fun s => { system := s, tasks := started d.tasks l }
      else none
  | .client c step =>
      ((d.tasks c).next (d.system.conns c) step).map fun p =>
        { system := d.system.setConn c p.1, tasks := Function.update d.tasks c p.2 }

/-- The system of a configuration, with client programs. -/
def lts (config : ServerConfig) : LTS Deployed DeployedLabel where
  init d := (System.lts config).init d.system ∧ d.tasks = fun _ => ClientTasks.new
  next := next

end Deployed

/-! ## The wires before and behind the tasks -/

/-- Every connection with messages put back in front of its wire, and another client. -/
def Conns.overlay (u : ConnId → List Message × Client) (conns : Conns) : Conns :=
  fun c => (conns c).overlay (u c).1 (u c).2

theorem Conns.overlay_update (u : ConnId → List Message × Client) (conns : Conns) (c : ConnId)
    (k : Conn) : Conns.overlay u (Function.update conns c k)
      = Function.update (Conns.overlay u conns) c (k.overlay (u c).1 (u c).2) := by
  funext c'
  by_cases hc : c' = c
  · subst hc
    simp [Conns.overlay]
  · simp [Conns.overlay, hc]

theorem answersAlike_overlay (u : ConnId → List Message × Client) :
    Server.AnswersAlike (Conns.overlay u) := by
  intro conns c msg
  have hwriter : (conns.overlay u c).writer = (conns c).writer := rfl
  have hqueue : (conns.overlay u c).queue = (conns c).queue := rfl
  by_cases hended : (conns c).writer = .ended
  · rw [trySend_ended hended]
    exact trySend_ended (hwriter.trans hended) msg
  · by_cases hroom : (conns c).queue.length < CLIENT_QUEUE
    · rw [trySend_room hended hroom, Prod.map_apply, Conns.overlay_update]
      exact trySend_room (hwriter ▸ hended) (hqueue ▸ hroom) msg
    · rw [trySend_full hended hroom]
      exact trySend_full (hwriter ▸ hended) (hqueue ▸ hroom) msg

namespace Conn

variable (k : Conn) (front : List Message) (start : Client)

theorem next_overlay {step : ConnStep} (hserver : step.byClient = false) :
    (k.overlay front start).next step = (k.next step).map (overlay front start) := by
  obtain ⟨phase, name, position, w, hgt, queue, writer, down, client, running, up, reader⟩ := k
  cases step with
  | recv => rcases writer with _ | _ | _ | _ <;> cases queue <;> rfl
  | written =>
      rcases writer with _ | msg | _ | _
      case writing => simp [overlay, next]
      all_goals rfl
  | failed => rcases writer with _ | _ | _ | _ <;> rfl
  | send msg => cases hserver
  | batch first rest exit sendOk => cases hserver
  | stop => cases hserver

theorem emit_overlay (c : ConnId) (what : Emit) :
    (k.overlay front start).emit c what
      = (k.emit c what).map (Prod.map (overlay front start) id) := by
  obtain ⟨phase, name, position, w, hgt, queue, writer, down, client, running, up, reader⟩ := k
  cases what with
  | announce =>
      show (if phase = .accepted then _ else _) = Option.map _ (if phase = .accepted then _ else _)
      split <;> rfl
  | writerReport => rcases writer with _ | _ | _ | _ <;> rfl
  | readerDeliver => rcases phase with _ | _ | _ <;> rcases reader with _ | _ <;> cases up <;> rfl
  | readerReport => rcases phase with _ | _ | _ <;> rcases reader with _ | _ <;> rfl

end Conn

namespace System

/-- The wires and clients of a system replaced by others. -/
def overlay (u : ConnId → List Message × Client) (s : System) : System :=
  { s with conns := s.conns.overlay u }

variable {s s' : System} {l : Label}

theorem overlay_setConn (u : ConnId → List Message × Client) (s : System) (c : ConnId) (k : Conn) :
    (s.overlay u).setConn c (k.overlay (u c).1 (u c).2) = (s.setConn c k).overlay u := by
  show ({ s with conns := Function.update (s.conns.overlay u) c _ } : System)
    = { s with conns := Conns.overlay u (Function.update s.conns c k) }
  rw [Conns.overlay_update]

/-- A step of the server goes the same way over other wires and clients. -/
theorem next_overlay (hserver : l.byServer = true)
    (hnew : ∀ c config clipboard now₁ now₂, l ≠ .accept c config clipboard now₁ now₂)
    (u : ConnId → List Message × Client) (s : System) :
    (s.overlay u).next l = (s.next l).map (overlay u) := by
  cases l with
  | accept c config clipboard now₁ now₂ => exact absurd rfl (hnew c config clipboard now₁ now₂)
  | conn c step =>
      have hstep := Conn.next_overlay (s.conns c) (u c).1 (u c).2 (by simpa [Label.byServer] using hserver)
      show (((s.conns c).overlay (u c).1 (u c).2).next step).map ((s.overlay u).setConn c) = _
      rw [hstep, Option.map_map]
      show _ = (((s.conns c).next step).map (s.setConn c)).map (overlay u)
      rw [Option.map_map]
      congr 1
      funext k
      exact overlay_setConn u s c k
  | stopWriter c =>
      have halive : (s.overlay u).senderAlive c = s.senderAlive c := rfl
      rcases hwriter : (s.conns c).writer with _ | _ | _ | _
      case idle =>
        have hwriter' : ((s.overlay u).conns c).writer = .idle := hwriter
        rcases hqueue : (s.conns c).queue with _ | ⟨msg, queue⟩
        · have hqueue' : ((s.overlay u).conns c).queue = [] := hqueue
          simp only [next, hwriter, hwriter', hqueue, hqueue', halive]
          split
          · rfl
          · exact congrArg some (overlay_setConn u s c
              { s.conns c with queue := [], writer := .stopping .senderDropped })
        · have hqueue' : ((s.overlay u).conns c).queue = msg :: queue := hqueue
          simp [next, hwriter, hwriter', hqueue, hqueue']
      all_goals
        have hwriter' : ((s.overlay u).conns c).writer = _ := hwriter
        simp [next, hwriter, hwriter']
  | emit c what =>
      have hemit := Conn.emit_overlay (s.conns c) (u c).1 (u c).2 c what
      show (if s.events.length < EVENT_QUEUE then
        (((s.conns c).overlay (u c).1 (u c).2).emit c what).map _ else none) = _
      unfold next
      simp only
      split
      · rw [hemit, Option.map_map, Option.map_map]
        congr 1
        funext p
        show ((s.overlay u).setConn c (p.1.overlay (u c).1 (u c).2)).push p.2 = _
        rw [overlay_setConn]
        rfl
      · rfl
  | capture ev =>
      show (if s.events.length < EVENT_QUEUE then _ else _) = _
      unfold next
      simp only
      split <;> rfl
  | copied content =>
      show (if s.events.length < EVENT_QUEUE ∧ s.server.config.clipboardSharing then _ else _) = _
      unfold next
      simp only
      split <;> rfl
  | serve env =>
      show serve env (s.overlay u) = (serve env s).map (overlay u)
      have hhandled := Server.handle_natural (answersAlike_overlay u) env s.server s.conns
      rcases hevents : s.events with _ | ⟨e, events⟩
      · have hevents' : (s.overlay u).events = [] := hevents
        simp [serve, hevents, hevents']
      · have hevents' : (s.overlay u).events = e :: events := hevents
        have hserver : (s.overlay u).server = s.server := rfl
        have hconns : (s.overlay u).conns = s.conns.overlay u := rfl
        simp only [serve, hevents, hevents', hserver, hconns, hhandled]
        rfl

/-- The server's side of the system leaves the clients alone. -/
theorem Step.client_eq (h : s.Step l s') (hserver : l.byServer = true)
    (hnew : ∀ c config clipboard now₁ now₂, l ≠ .accept c config clipboard now₁ now₂) (c : ConnId) :
    (s'.conns c).client = (s.conns c).client := by
  cases h with
  | accept _ _ => exact absurd rfl (hnew _ _ _ _ _)
  | conn hstep =>
      refine setConn_forall (P := fun k k' => k'.client = k.client) (fun _ => rfl) ?_ c
      cases hstep with
      | recv _ _ => rfl
      | written _ => rfl
      | failed _ => rfl
      | send _ => cases hserver
      | batch _ _ => cases hserver
      | stop _ => cases hserver
  | stopWriter _ _ _ =>
      refine setConn_forall (P := fun k k' => k'.client = k.client) (fun _ => rfl) ?_ c
      rfl
  | emit hemits =>
      refine setConn_forall (P := fun k k' => k'.client = k.client) (fun _ => rfl) ?_ c
      cases hemits <;> rfl
  | capture => rfl
  | copied => rfl
  | @serve env e _ _ =>
      obtain ⟨more, hc, _⟩ := Server.appends_handle env s.server s.conns e.event c
      show ((s.server.handle env s.conns e.event).2 c).client = _
      rw [hc]

end System

/-! ## The simulation -/

/-- A guard that clients meet which keep the rules, and that does not look at the clients otherwise. -/
structure System.Blind (G : System → Label → Prop) : Prop where
  honest : ∀ s c step, step.byClient = true → step.Honest → G s (.conn c step)
  overlay : ∀ s u l, G s l → G (s.overlay u) l

namespace Deployed

variable {d d' : Deployed} {s : System} {u : ConnId → Underway} {G : System → Label → Prop}

/-- The system with the clients that take whole batches. -/
def mirror (d : Deployed) (u : ConnId → Underway) : System :=
  d.system.overlay fun c => ((d.tasks c).front (u c), (u c).start)

/-- The system is the deployed one but for the batches under way. -/
def Mirrors (d : Deployed) (s : System) : Prop :=
  ∃ u, (∀ c, (d.tasks c).Reached (d.system.conns c) (u c)) ∧ s = d.mirror u

/-- A guard on the steps of the server; the programs of the clients are under none. -/
def Guard (G : System → Label → Prop) (d : Deployed) : DeployedLabel → Prop
  | .server l => l.byServer = true → G d.system l
  | .client _ _ => True

/-- One client has moved on, and the others are where they were. -/
theorem mirror_update (d : Deployed) (u : ConnId → Underway) (c : ConnId) (k : Conn)
    (t : ClientTasks) (u' : Underway) :
    mirror { system := d.system.setConn c k, tasks := Function.update d.tasks c t }
        (Function.update u c u')
      = (d.mirror u).setConn c (t.mirror k u') := by
  have hconns : (mirror { system := d.system.setConn c k, tasks := Function.update d.tasks c t }
      (Function.update u c u')).conns = ((d.mirror u).setConn c (t.mirror k u')).conns := by
    funext c'
    by_cases hc : c' = c
    · subst hc
      simp [mirror, System.overlay, Conns.overlay, System.setConn, ClientTasks.mirror]
    · simp [mirror, System.overlay, Conns.overlay, System.setConn, hc]
  show System.mk _ _ _ = System.mk _ _ _
  rw [System.mk.injEq]
  exact ⟨rfl, hconns, rfl⟩

theorem mirror_of_new (h : d.tasks = fun _ => ClientTasks.new) :
    d.mirror (fun c => ⟨[], (d.system.conns c).client⟩) = d.system := by
  unfold mirror
  rw [h]
  rfl

theorem reached_update {c : ConnId} {k : Conn} {t : ClientTasks} {u' : Underway}
    (h : ∀ c, (d.tasks c).Reached (d.system.conns c) (u c)) (hc : t.Reached k u') (c' : ConnId) :
    (Function.update d.tasks c t c').Reached ((d.system.setConn c k).conns c')
      (Function.update u c u' c') := by
  by_cases heq : c' = c
  · subst heq
    simpa using hc
  · rw [System.conns_setConn_of_ne heq]
    simpa [heq] using h c'

variable {config : ServerConfig}

/-- A step of a client program is a step of its client or none. -/
theorem matched_client {c : ConnId} {step : TaskStep} (hG : System.Blind G)
    (hu : ∀ c, (d.tasks c).Reached (d.system.conns c) (u c))
    (h : d.next (.client c step) = some d') :
    ∃ bs s', LTS.Steps (System.lts config) G (d.mirror u) bs s' ∧ bs.flatMap Label.shown = [] ∧
      d'.Mirrors s' := by
  obtain ⟨⟨k, t⟩, hnext, rfl⟩ := Option.map_eq_some_iff.mp h
  obtain ⟨u', hreached, hfollows⟩ := ClientTasks.follows (ClientTasks.step_of_next hnext) (hu c)
  have hmirrors : (Deployed.mk (d.system.setConn c k) (Function.update d.tasks c t)).Mirrors
      ((d.mirror u).setConn c (t.mirror k u')) :=
    ⟨Function.update u c u', reached_update hu hreached, (mirror_update d u c k t u').symm⟩
  -- the connection as the system has it
  have hconn : (d.mirror u).conns c = (d.tasks c).mirror (d.system.conns c) (u c) := rfl
  generalize hk' : t.mirror k u' = k' at hfollows hmirrors
  cases hfollows with
  | same =>
      rw [← hconn] at hmirrors
      refine ⟨[], _, .nil _, rfl, ?_⟩
      have hsame : (d.mirror u).setConn c ((d.mirror u).conns c) = d.mirror u := by
        show System.mk _ (Function.update (d.mirror u).conns c _) _ = _
        rw [Function.update_eq_self]
      rwa [hsame] at hmirrors
  | step step hclient honest hstep =>
      refine ⟨[.conn c step], _, .single (hG.honest _ _ _ hclient honest) ?_, ?_, hmirrors⟩
      · show (((d.mirror u).conns c).next step).map _ = _
        rw [hconn, hstep]
        rfl
      · simp [Label.shown, Label.byServer, hclient]

/-- A step of the server is that step of the system. -/
theorem matched_server {l : Label} (hG : System.Blind G)
    (hguard : l.byServer = true → G d.system l)
    (hu : ∀ c, (d.tasks c).Reached (d.system.conns c) (u c))
    (h : d.next (.server l) = some d') :
    ∃ bs s', LTS.Steps (System.lts config) G (d.mirror u) bs s' ∧ bs.flatMap Label.shown = [l] ∧
      d'.Mirrors s' := by
  unfold next at h
  simp only at h
  split at h
  · rename_i hserver
    obtain ⟨s', hnext, rfl⟩ := Option.map_eq_some_iff.mp h
    have hshown : [l].flatMap Label.shown = [l] := by simp [Label.shown, hserver]
    by_cases hnew : ∀ c config clipboard now₁ now₂, l ≠ .accept c config clipboard now₁ now₂
    · have hsame : started d.tasks l = d.tasks := by
        unfold started
        split
        · exact absurd rfl (hnew _ _ _ _ _)
        · rfl
      rw [hsame]
      refine ⟨[l], s'.overlay _, .single (hG.overlay _ _ _ (hguard hserver)) ?_, hshown, u, ?_, rfl⟩
      · show (d.mirror u).next l = _
        unfold mirror
        rw [System.next_overlay hserver hnew, hnext]
        rfl
      · intro c
        have hclient := (System.step_of_next hnext).client_eq hserver hnew c
        have hc := hu c
        unfold ClientTasks.Reached at hc ⊢
        rwa [hclient]
    · push Not at hnew
      obtain ⟨c, cconfig, clipboard, now₁, now₂, rfl⟩ := hnew
      cases System.step_of_next hnext with
      | @accept _ _ _ _ _ position habsent hposition =>
          have hphase : ((d.mirror u).conns c).phase = .absent := habsent
          have hnamed : (d.mirror u).server.config.clients.lookup cconfig.name = some position :=
            hposition
          refine ⟨[.accept c cconfig clipboard now₁ now₂], _,
            .single (hG.overlay _ _ _ (hguard hserver)) ?_, hshown, Function.update u c ⟨[], _⟩,
            reached_update hu rfl, (mirror_update d u c _ ClientTasks.new _).symm⟩
          show (d.mirror u).next (.accept c cconfig clipboard now₁ now₂) = _
          simp only [System.next, hphase, hnamed]
          rfl
  · cases h

/-- The system with client programs does nothing that the system does not. -/
theorem deployed_simulates (config : ServerConfig) (hG : System.Blind G) :
    LTS.Simulates (Deployed.lts config) (Guard G) DeployedLabel.shown (System.lts config) G
      Label.shown Mirrors := by
  constructor
  · rintro d ⟨hinit, htasks⟩
    refine ⟨d.system, hinit, _, ?_, (mirror_of_new htasks).symm⟩
    intro c
    rw [htasks]
    rfl
  · rintro d s a d' ⟨u, hu, rfl⟩ hguard hnext
    cases a with
    | server l => exact matched_server hG hguard hu hnext
    | client c step => exact matched_client hG hu hnext

theorem blind_honest : System.Blind fun _ l => l.Honest :=
  ⟨fun _ _ _ _ honest => honest, fun _ _ _ h => h⟩

theorem blind_oneEach : System.Blind System.OneEach := by
  constructor
  · intro s c step _ honest
    exact honest
  · intro s u l h
    cases l <;> exact h

theorem guard_honest (d : Deployed) (a : DeployedLabel) : Guard (fun _ l => l.Honest) d a := by
  cases a with
  | server l =>
      intro hserver
      cases l with
      | conn c step =>
          cases step with
          | send msg => cases hserver
          | _ => trivial
      | _ => trivial
  | client c step => trivial

/-- Every run of the server with the programs of its clients is, step of the server for step of the
server, a run of the system with clients that keep the rules. At its end the two agree, but for the
batches that the programs have under way. -/
theorem programs_refine (config : ServerConfig) {d₀ : Deployed} {ls : List DeployedLabel}
    (hinit : (Deployed.lts config).init d₀)
    (h : LTS.Steps (Deployed.lts config) LTS.anyStep d₀ ls d) :
    ∃ ls' s, LTS.Steps (System.lts config) (fun _ l => l.Honest) d₀.system ls' s ∧
      ls'.flatMap Label.shown = ls.flatMap DeployedLabel.shown ∧ d.Mirrors s := by
  have hstart : d₀.Mirrors d₀.system := by
    refine ⟨_, ?_, (mirror_of_new hinit.2).symm⟩
    intro c
    rw [hinit.2]
    rfl
  exact (deployed_simulates config blind_honest).steps
    (h.weaken fun d a _ => guard_honest d a) hstart

/-! ## Who acts -/

end Deployed

namespace ClientTasks

variable {t t' : ClientTasks} {k k' : Conn} {u : Underway} {step : TaskStep}

/-- The program's client has control only where the system's has it or will take it with the batch. -/
theorem active_tokens (hu : t.Reached k u) (h : k.client.state.active = true) :
    1 ≤ (t.mirror k u).tokens := by
  have hcontrol : k.client.state.active
      = (u.start.state.active || (u.taken.map Prod.fst).any Message.isSwitch) := by
    unfold Reached at hu
    split at hu
    · subst hu
      simp
    · obtain ⟨first, rest, htaken, hbatch⟩ := hu
      have hactive := (u.start.applyBatch_control ⟨first, rest, 0, 0, 0⟩).1
      rw [hbatch] at hactive
      rw [htaken]
      exact hactive
  rw [h] at hcontrol
  have hle := toNat_or_any_le u.start.state.active Message.isSwitch (u.taken.map Prod.fst)
  rw [← hcontrol, Bool.toNat_true] at hle
  have htaken : (u.taken.map Prod.fst).countP Message.isSwitch
      ≤ (t.mirror k u).toClient.countP Message.isSwitch := by
    simp only [mirror, Conn.toClient, Conn.overlay, front, List.countP_append]
    omega
  have hstart : (t.mirror k u).client = u.start := rfl
  unfold Conn.tokens
  rw [hstart]
  omega

/-- What is written, or that it cannot be, hands nothing to the devices. -/
theorem emitted_clientWrites (k : Conn) (msg : Message) (sendOk : Bool) :
    (k.clientWrites msg sendOk).client.injector.emitted = k.client.injector.emitted := by
  cases sendOk <;> rfl

/-- A client without control is handed no input by a message. -/
theorem injector_applyMessage {c : Client} (hoff : c.state.active = false) (msg : Message)
    (now : Instant) : (c.applyMessage msg now).1.injector = c.injector := by
  by_cases hswitch : msg.isSwitch = true
  · rw [c.applyMessage_of_isSwitch hswitch]
    rfl
  · rcases (c.applyMessage_other (by simpa using hswitch) now).2 with hon | hsame
    · rw [hoff] at hon
      cases hon
    · exact hsame

/-- What the tasks hand to the virtual devices, they hand over while the client has control. -/
theorem active_of_injects (hu : t.Reached k u) (h : t.Step k step k' t')
    (hinjects : k'.client.injector.emitted ≠ k.client.injector.emitted) :
    k.client.state.active = true := by
  by_contra hoff
  rw [Bool.not_eq_true] at hoff
  apply hinjects
  cases h with
  | recv _ _ _ => exact congrArg InputInjector.emitted (injector_applyMessage hoff _ _)
  | tryRecv _ _ _ => exact congrArg InputInjector.emitted (injector_applyMessage hoff _ _)
  | @drained exit sendOk total _ hmain _ =>
      -- there is no motion without control
      simp only [Reached, hmain] at hu
      obtain ⟨first, rest, _, hbatch⟩ := hu
      have hstill := (u.start.applyBatch_control ⟨first, rest, exit⟩).2
      rw [hbatch] at hstill
      have hzero : total = 0 := hstill hoff
      have hnone : k.client.useMotion exit total = (k.client, false) := by
        rw [hzero]
        rfl
      unfold Conn.afterBatch
      rw [hnone]
      rfl
  | heartbeat _ _ => exact emitted_clientWrites k _ _
  | clip _ _ _ => exact emitted_clientWrites k _ _
  | _ => rfl

end ClientTasks

namespace Deployed

variable {d d' : Deployed} {config : ServerConfig}

/-- A registered client whose writer lives and whose program has control is the server's active
client, whatever its main task is at. -/
theorem active_is_holder (hsized : config.Sized)
    (h : (Deployed.lts config).Reach (Guard System.OneEach) d) {name : String}
    {client : ClientInfo ConnId} (hclient : d.system.server.clients.lookup name = some client)
    (hwriter : (d.system.conns client.tx).writer ≠ .ended)
    (hactive : (d.system.conns client.tx).client.state.active = true) :
    d.system.server.activeClient = some name := by
  obtain ⟨s, hreach, u, hu, rfl⟩ := (deployed_simulates config blind_oneEach).reach h
  have hexclusive := System.exclusive_reach hsized (fun _ _ => id) hreach
  have hname := ((System.sound_reach hsized hreach).wired.announced hclient).2
  obtain ⟨hone, hholder⟩ := hexclusive.single client.tx ⟨name, client, hclient, rfl⟩ hwriter
  have hpos := ClientTasks.active_tokens (hu client.tx) hactive
  have htokens : (d.mirror u).tokens client.tx
      = ((d.tasks client.tx).mirror (d.system.conns client.tx) (u client.tx)).tokens
        + ((d.mirror u).eventsOf client.tx).countP Event.handsBack := rfl
  rw [← hname]
  apply hholder
  omega

/-- A program that hands input to its virtual devices is that of the server's active client. -/
theorem injects_is_holder (hsized : config.Sized)
    (h : (Deployed.lts config).Reach (Guard System.OneEach) d) {name : String}
    {client : ClientInfo ConnId} (hclient : d.system.server.clients.lookup name = some client)
    (hwriter : (d.system.conns client.tx).writer ≠ .ended) {step : TaskStep}
    (hnext : d.next (.client client.tx step) = some d')
    (hinjects : (d'.system.conns client.tx).client.injector.emitted
      ≠ (d.system.conns client.tx).client.injector.emitted) :
    d.system.server.activeClient = some name := by
  apply active_is_holder hsized h hclient hwriter
  obtain ⟨_, _, u, hu, rfl⟩ := (deployed_simulates config blind_oneEach).reach h
  obtain ⟨⟨k, t⟩, htask, rfl⟩ := Option.map_eq_some_iff.mp hnext
  refine ClientTasks.active_of_injects (hu client.tx) (ClientTasks.step_of_next htask) ?_
  simpa [System.setConn] using hinjects

/-- At every moment of the programs at most one of the live clients acts: where names are distinct, a
program has control, and hands input to its virtual devices, only while the server takes its client
for the active one. -/
theorem one_program_acts (config : ServerConfig) (hsized : config.Sized) (d : Deployed)
    (h : (Deployed.lts config).Reach (Guard System.OneEach) d) :
    (∀ name client, d.system.server.clients.lookup name = some client →
      (d.system.conns client.tx).writer ≠ .ended →
      ((d.system.conns client.tx).client.state.active = true →
        d.system.server.activeClient = some name) ∧
      ∀ step d', d.next (.client client.tx step) = some d' →
        (d'.system.conns client.tx).client.injector.emitted
          ≠ (d.system.conns client.tx).client.injector.emitted →
        d.system.server.activeClient = some name) ∧
    (∀ name₁ client₁ name₂ client₂,
      d.system.server.clients.lookup name₁ = some client₁ →
      (d.system.conns client₁.tx).writer ≠ .ended →
      d.system.server.clients.lookup name₂ = some client₂ →
      (d.system.conns client₂.tx).writer ≠ .ended →
      (d.system.conns client₁.tx).client.state.active = true →
      (d.system.conns client₂.tx).client.state.active = true → name₁ = name₂) := by
  refine ⟨?_, ?_⟩
  · intro name client hclient hwriter
    refine ⟨active_is_holder hsized h hclient hwriter, ?_⟩
    intro step d' hnext hinjects
    exact injects_is_holder hsized h hclient hwriter hnext hinjects
  · intro name₁ client₁ name₂ client₂ h₁ hw₁ h₂ hw₂ ha₁ ha₂
    have heq := (active_is_holder hsized h h₁ hw₁ ha₁).symm.trans
      (active_is_holder hsized h h₂ hw₂ ha₂)
    exact Option.some.inj heq

/-- The laptop is told to take control; its main task sends a heartbeat, applies the message, and
looks for more of the batch. -/
def midBatch : List DeployedLabel :=
  System.handOver.map .server ++ [.server (.conn 0 .recv), .server (.conn 0 .written),
    .client 0 .received, .client 0 .passed, .client 0 (.heartbeat true), .client 0 (.recv 5)]

/-- Nobody has connected. -/
def unused : Deployed where
  system := System.new Server.leftConfig ClipboardManager.new 0
  tasks := fun _ => ClientTasks.new

theorem programs_refine_midBatch :
    ∃ d, (Deployed.lts Server.leftConfig).exec unused midBatch = some d ∧
      (d.system.conns 0).client.state.active = true ∧
      ∃ ls' s, LTS.Steps (System.lts Server.leftConfig) (fun _ l => l.Honest) unused.system ls' s ∧
        ls'.flatMap Label.shown = midBatch.flatMap DeployedLabel.shown ∧ d.Mirrors s := by
  refine ⟨_, rfl, rfl, ?_⟩
  exact programs_refine Server.leftConfig ⟨⟨ClipboardManager.new, 0, rfl⟩, rfl⟩
    (LTS.steps_of_exec rfl (LTS.guarded_anyStep unused midBatch))

theorem one_program_acts_midBatch :
    ∃ d client, (Deployed.lts Server.leftConfig).exec unused midBatch = some d ∧
      d.system.server.clients.lookup "laptop" = some client ∧
      (d.system.conns client.tx).client.state.active = true ∧
      d.system.server.activeClient = some "laptop" := by
  refine ⟨_, _, rfl, rfl, rfl, ?_⟩
  have hacts := one_program_acts Server.leftConfig ⟨by decide, by decide⟩ _
    ⟨unused, midBatch, ⟨⟨ClipboardManager.new, 0, rfl⟩, rfl⟩, LTS.steps_of_exec rfl
      ⟨fun _ _ h => absurd rfl h, fun _ => trivial, fun _ => trivial, fun _ => trivial,
        fun _ => trivial, fun _ => trivial, fun _ => trivial, trivial, trivial, trivial, trivial,
        trivial⟩⟩
  exact (hacts.1 "laptop" _ rfl (by intro h; cases h)).1 rfl

end Deployed

end Bluecross
