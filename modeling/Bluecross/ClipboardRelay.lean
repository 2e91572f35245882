/-
# Bluecross.ClipboardRelay — which clipboard values reach which clients.

The server learns of a clipboard value in two ways, from its own watcher (`ClipboardChanged`) and from
a client (`ClipboardData`), and passes it on at once or never. `News` is the last value with the
registrations that were there when it was handled and have stayed since.

A value from a client is relayed whatever the state. A value from the watcher is dropped while a
client is active (`clipboard_paused`), and nothing brings it back when control returns. The values
that are not dropped are `heeded`, and of these the last has been queued to everybody it concerns, in
every state of every run (`heeded_news_spread`).
-/
import Bluecross.Confidentiality
import Bluecross.Forwarding

namespace Bluecross

open Lib (LTS)

/-- A clipboard value that was handled: the client it came from, if it came from one, the number of
calls made before, and the registrations that were there and have stayed since. -/
structure News (τ : Type) where
  value : String
  origin : Option String
  since : Nat
  kept : List (String × τ)

namespace Server

variable {τ : Type} {s : Server τ} {r : Recorder τ} {env : Env τ} {event : ServerEvent τ}

/-- The clipboard value that an event brings, with its origin. -/
def processed (s : Server τ) : ServerEvent τ → Option (String × Option String)
  | .clipboardChanged content => some (content, none)
  | .clientMessage name msg => (s.config.contentOf msg).map fun content => (content, some name)
  | _ => none

/-- The same without the local changes that the pause drops. -/
def heeded (s : Server τ) : ServerEvent τ → Option (String × Option String)
  | .clipboardChanged content => if s.clipboardPaused then none else some (content, none)
  | event => s.processed event

/-- The registered clients by name and queue. -/
def registrations (s : Server τ) : List (String × τ) := s.clients.entries.map fun e => (e.1, e.2.tx)

/-- The event leaves what is registered under the name. -/
def Leaves (name : String) : ServerEvent τ → Bool
  | .newClient n _ _ _ _ => n ≠ name
  | .clientDisconnected n => n ≠ name
  | _ => true

/-- The last news along a run, of the values picked. -/
def follow (pick : Server τ → ServerEvent τ → Option (String × Option String))
    (p : Server τ × Recorder τ) (l : Env τ × ServerEvent τ) (last : Option (News τ)) :
    Option (News τ) :=
  match pick p.1 l.2 with
  | some (value, origin) => some ⟨value, origin, p.2.log.length, p.1.registrations⟩
  | none => last.map fun news => { news with kept := news.kept.filter fun k => Leaves k.1 l.2 }

/-- Everybody who was there has been sent the value since, but for the client it came from. -/
def Spread (p : Server τ × Recorder τ) (news : News τ) : Prop :=
  ∀ k ∈ news.kept, news.origin ≠ some k.1 →
    ⟨k.2, Message.clipboardData news.value, .ok⟩ ∈ p.2.log.drop news.since

/-! ## One event -/

/-- A relay calls every registered client on its list. -/
theorem sendEach_calls (s : Server τ) (msg : Message) (r : Recorder τ) (names : List String) :
    ∃ sent, (s.sendEach msg r names).log = r.log ++ sent ∧
      ∀ name ∈ names, ∀ client, s.clients.lookup name = some client →
        ∃ answer, (⟨client.tx, msg, answer⟩ : Attempt τ) ∈ sent := by
  induction names generalizing r with
  | nil => exact ⟨[], (List.append_nil _).symm, nofun⟩
  | cons m names ih =>
      obtain ⟨sent, hsent, hcalls⟩ := ih (s.sendTo r m msg).2
      have hlog : (s.sendEach msg r (m :: names)).log = (s.sendTo r m msg).2.log ++ sent := hsent
      rcases hm : s.clients.lookup m with _ | c
      · rw [sendTo_unknown hm] at hlog
        refine ⟨sent, hlog, ?_⟩
        intro name hname client hclient
        rcases List.mem_cons.mp hname with rfl | hlater
        · rw [hm] at hclient
          cases hclient
        · exact hcalls name hlater client hclient
      · obtain ⟨answer, hfirst, _⟩ := sendTo_log hm r msg
        rw [hfirst, List.append_assoc] at hlog
        refine ⟨_, hlog, ?_⟩
        intro name hname client hclient
        rcases List.mem_cons.mp hname with rfl | hlater
        · rw [hm] at hclient
          cases hclient
          exact ⟨answer, List.mem_append_left _ (List.mem_singleton_self _)⟩
        · obtain ⟨answer', hmem⟩ := hcalls name hlater client hclient
          exact ⟨answer', List.mem_append_right _ hmem⟩

theorem mem_names {name : String} {client : ClientInfo τ}
    (h : s.clients.lookup name = some client) (env : Env τ) : name ∈ s.names env := by
  exact List.mem_map.mpr ⟨(name, client), env.order.mem_iff.mpr h, rfl⟩

theorem lookup_of_mem_names {name : String} (h : name ∈ s.names env) :
    ∃ client, s.clients.lookup name = some client := by
  obtain ⟨⟨n, client⟩, hmem, rfl⟩ := List.mem_map.mp h
  exact ⟨client, env.order.mem_iff.mp hmem⟩

theorem names_nodup (s : Server τ) (env : Env τ) : (s.names env).Nodup := by
  have hperm := (env.order.2 s.clients).map Prod.fst
  rw [List.map_map] at hperm
  exact hperm.nodup_iff.mpr s.clients.nodupKeys

theorem handle_log (s : Server τ) (env : Env τ) (r : Recorder τ) (event : ServerEvent τ) :
    ∃ sent, (s.handle env r event).2.log = r.log ++ sent := by
  obtain ⟨s', sent, hrun⟩ := s.handle_sent env event r.answers r.log.length
  exact ⟨sent, congrArg (fun p => p.2.log) (hrun r.log rfl)⟩

/-- A value that is heeded is sent to every registered client but the one it came from. -/
theorem handle_heeded {value : String} {origin : Option String}
    (h : s.heeded event = some (value, origin)) (env : Env τ) (r : Recorder τ) :
    ∃ sent, (s.handle env r event).2.log = r.log ++ sent ∧
      ∀ name client, s.clients.lookup name = some client → origin ≠ some name →
        ∃ answer, (⟨client.tx, Message.clipboardData value, answer⟩ : Attempt τ) ∈ sent := by
  cases event with
  | input ev => cases h
  | newClient => cases h
  | clientDisconnected => cases h
  | clipboardChanged content =>
      simp only [heeded] at h
      split at h
      · cases h
      · rename_i hopen
        cases h
        show ∃ sent, (s.broadcastClipboard env r value).log = r.log ++ sent ∧ _
        unfold broadcastClipboard
        split
        -- heeded and not sent: then nobody is registered
        · rename_i hnobody
          refine ⟨[], (List.append_nil _).symm, ?_⟩
          intro name client hclient
          have hmem := AList.mem_lookup_iff.mp hclient
          rw [List.isEmpty_iff.mp (hnobody.resolve_right hopen)] at hmem
          cases hmem
        · obtain ⟨sent, hsent, hcalls⟩ := s.sendEach_calls (Message.clipboardData value) r (s.names env)
          refine ⟨sent, hsent, ?_⟩
          intro name client hclient _
          exact hcalls name (mem_names hclient env) client hclient
  | clientMessage n msg =>
      simp only [heeded, processed, Option.map_eq_some_iff] at h
      obtain ⟨content, hcontent, heq⟩ := h
      cases heq
      show ∃ sent, (s.handleClientMessage env r n msg).2.log = r.log ++ sent ∧ _
      rcases handleClientMessage_cases env s r n msg with
        ⟨hback, _⟩ | ⟨content', hcontent', hdone⟩ | ⟨_, hnone, _⟩
      · rw [s.config.contentOf_of_isHandBack hback] at hcontent
        cases hcontent
      · rw [hcontent] at hcontent'
        cases hcontent'
        rw [hdone]
        obtain ⟨sent, hsent, hcalls⟩ := s.sendEach_calls (Message.clipboardData value) r
          ((s.names env).filter fun m => m ≠ n)
        refine ⟨sent, hsent, ?_⟩
        intro name client hclient hother
        have hne : name ≠ n := fun heq => hother (congrArg some heq.symm)
        -- the filter leaves out the sender alone
        refine hcalls name (List.mem_filter.mpr ⟨mem_names hclient env, ?_⟩) client hclient
        exact decide_eq_true hne
      · rw [hcontent] at hnone
        cases hnone

/-! ## Whole runs -/

/-- The calls that spread the news have been made, however they were answered. -/
structure Called (p : Server τ × Recorder τ) (news : News τ) : Prop where
  since : news.since ≤ p.2.log.length
  calls : ∀ k ∈ news.kept, news.origin ≠ some k.1 →
    ∃ answer, ⟨k.2, Message.clipboardData news.value, answer⟩ ∈ p.2.log.drop news.since

/-- Calls that were made stay made. -/
theorem Called.extend {p q : Server τ × Recorder τ} {news : News τ} {sent : List (Attempt τ)}
    (h : Called p news) (hlog : q.2.log = p.2.log ++ sent) {kept : List (String × τ)}
    (hkept : ∀ k ∈ kept, k ∈ news.kept) : Called q { news with kept := kept } := by
  refine ⟨?_, ?_⟩
  · rw [hlog, List.length_append]
    exact Nat.le_add_right_of_le h.since
  · intro k hk hother
    obtain ⟨answer, hmem⟩ := h.calls k (hkept k hk) hother
    refine ⟨answer, ?_⟩
    rw [hlog, List.drop_append_of_le_length h.since]
    exact List.mem_append_left _ hmem

theorem called_step {p q : Server τ × Recorder τ} {l : Env τ × ServerEvent τ}
    {last : Option (News τ)} (h : ∀ news, last = some news → Called p news)
    (hq : p.1.handle l.1 p.2 l.2 = q) (news : News τ)
    (hnews : follow heeded p l last = some news) : Called q news := by
  unfold follow at hnews
  split at hnews
  · rename_i value origin hheeded
    -- a new value: its calls are made by the event itself
    obtain ⟨sent, hlog, hcalls⟩ := handle_heeded hheeded l.1 p.2
    rw [hq] at hlog
    cases hnews
    refine ⟨?_, ?_⟩
    · rw [hlog, List.length_append]
      exact Nat.le_add_right ..
    · intro k hk hother
      obtain ⟨⟨name, client⟩, he, rfl⟩ := List.mem_map.mp hk
      rw [hlog, List.drop_left]
      exact hcalls name client (AList.mem_lookup_iff.mpr he) hother
  · -- nothing new: the calls that were made stay made
    obtain ⟨before, hbefore, rfl⟩ := Option.map_eq_some_iff.mp hnews
    obtain ⟨sent, hlog⟩ := p.1.handle_log l.1 p.2 l.2
    rw [hq] at hlog
    exact (h before hbefore).extend hlog fun k hk => List.mem_of_mem_filter hk

/-- In every state of every run in which no queue is full or closed, the last value that was heeded has
been queued to everybody it concerns; what comes from the watcher under the pause changes nothing. -/
theorem heeded_news_spread (config : ServerConfig) (p q : Server τ × Recorder τ)
    (ls : List (Env τ × ServerEvent τ))
    (hrun : (Server.system config).Steps LTS.anyStep p ls q)
    (hopen : ∀ a ∈ q.2.log, a.answer = .ok) :
    (∀ news, (Server.system config).record (follow heeded) p ls none = some news → Spread q news) ∧
      ∀ env content, q.1.clipboardPaused = true →
        q.1.handle env q.2 (.clipboardChanged content) = q := by
  refine ⟨?_, ?_⟩
  · intro news hnews k hk hother
    have hcalled : Called q news := by
      refine LTS.Steps.record_invariant
        (I := fun (q : Server τ × Recorder τ) last => ∀ news, last = some news → Called q news)
        ?_ hrun (g := none) nofun news hnews
      intro p l p' last hlast _ hnext
      exact called_step hlast (Option.some.inj hnext)
    obtain ⟨answer, hmem⟩ := hcalled.calls k hk hother
    obtain rfl := hopen _ (List.mem_of_mem_drop hmem)
    exact hmem
  · intro env content hpaused
    show (q.1, q.1.broadcastClipboard env q.2 content) = q
    rw [broadcastClipboard, if_pos (Or.inr hpaused)]

/-- Control goes to the laptop of a pair. A value is copied on the server and dropped, one that comes from
the tablet is relayed to the laptop, and control comes back. -/
def relayedAway : List (Env Bool × ServerEvent Bool) :=
  let env : Env Bool := ⟨0, HashOrder.entries Bool⟩
  [(env, .newClient "laptop" .left 800 600 false), (env, .newClient "tablet" .right 800 600 true),
    (env, .input (.mouseMove (-1000) 0)), (env, .clipboardChanged "copied"),
    (env, .clientMessage "tablet" (Message.clipboardData "drawn")),
    (env, .clientMessage "laptop" Message.switchToServer)]

theorem heeded_news_spread_relayedAway :
    ∃ q, (Server.system pairConfig).exec
        (Server.new pairConfig ClipboardManager.new 0, (⟨fun _ => .ok, []⟩ : Recorder Bool))
          relayedAway = some q ∧
      q.1.activeClient = none ∧
      Spread q ⟨"drawn", some "tablet", 1, [("tablet", true), ("laptop", false)]⟩ := by
  refine ⟨_, rfl, rfl, ?_⟩
  refine (heeded_news_spread pairConfig
    (Server.new pairConfig ClipboardManager.new 0, (⟨fun _ => .ok, []⟩ : Recorder Bool)) _ relayedAway
    (LTS.steps_of_exec rfl (LTS.guarded_anyStep _ _)) ?_).1 _ rfl
  intro a ha
  rcases List.mem_pair.mp ha with rfl | rfl
  · rfl
  · rfl

/-- Control goes to the laptop, a value is copied on the server, and control comes back. -/
def copiedAway : List (Env Unit × ServerEvent Unit) :=
  let env : Env Unit := ⟨0, HashOrder.entries Unit⟩
  leftRun.take 2 ++ [(env, .clipboardChanged "text"),
    (env, .clientMessage "laptop" Message.switchToServer)]

/-- What is copied on the server while the laptop has control never reaches the laptop. -/
theorem copy_lost_across_switch :
    ¬ ∀ config : ServerConfig, config.clipboardSharing = true →
      ∀ (p q : Server Unit × Recorder Unit) (ls : List (Env Unit × ServerEvent Unit)),
        (Server.system config).init p → (Server.system config).Steps LTS.anyStep p ls q →
        (∀ a ∈ q.2.log, a.answer = .ok) → q.1.clipboardPaused = false →
        ∀ news, (Server.system config).record (follow processed) p ls none = some news →
          Spread q news := by
  intro hall
  have hspread := hall leftConfig rfl
    (Server.new leftConfig ClipboardManager.new 0, (⟨fun _ => .ok, []⟩ : Recorder Unit)) _ copiedAway
    ⟨ClipboardManager.new, 0, rfl⟩ (LTS.steps_of_exec rfl (LTS.guarded_anyStep _ _)) ?_ rfl
    ⟨"text", none, 1, [("laptop", ())]⟩ rfl
  · cases hspread ("laptop", ()) (List.mem_singleton_self _) nofun
  · intro a ha
    rw [List.mem_singleton.mp ha]
    rfl

end Server

end Bluecross
