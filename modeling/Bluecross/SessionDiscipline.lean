/-
# Bluecross.SessionDiscipline — what a client does with control, told as a sequence of acts.

Three acts matter: control is taken (a `SwitchToClient` is processed), something is injected, control
is given back (a `SwitchToServer` is sent). `Session` is the abstract machine that says what they are
for. It remembers since when the client has control. It lets control be taken at any time, lets
something be injected only with control, and lets control be given back only with control that is 500
ms old. The three laws of a disciplined session are read off its runs (`disciplined_of_session`).

The client refines it. The acts of a message and of the end of a batch are what the injector and the
writer are handed there, so nothing is left out. What carries the refinement through a batch is that
a push that is being timed began after the grace period of the last switch.
-/
import Bluecross.ClientControl
import Bluecross.Lib.Transition

namespace Bluecross

open Lib (LTS)

/-- What a client does that others can tell. -/
inductive Act where
  /-- A `SwitchToClient` is processed at this time. -/
  | took (t : Instant)
  /-- A group of events is handed to a virtual device. -/
  | injected (e : Emission)
  /-- A `SwitchToServer` is sent, after this reading of the clock. -/
  | gaveBack (t : Instant)

/-- A span that is not shorter than a positive one. -/
theorem le_of_durationSince {now earlier d : Nat} (hd : 0 < d)
    (h : d ≤ Instant.durationSince now earlier) : earlier + d ≤ now := by
  have hspan : d ≤ now - earlier := h
  omega

/-- The grace period after a switch, and the time a push takes. -/
def GRACE : Duration := Duration.fromMillis 200
/-- How long the pointer is pushed into the exit edge. -/
def PUSH : Duration := Duration.fromMillis 300

/-! ## The laws -/

/-- A stretch of acts in which control is not taken. -/
def Untaken (acts : List Act) : Prop := ∀ t, Act.took t ∉ acts

/-- A stretch of acts in which control is not given back. -/
def Kept (acts : List Act) : Prop := ∀ t, Act.gaveBack t ∉ acts

/-- What a client may do, and when. -/
structure Disciplined (acts : List Act) : Prop where
  /-- What is injected comes after a switch, with nothing given back since. -/
  injected : ∀ before e after, acts = before ++ .injected e :: after →
    ∃ earlier t later, before = earlier ++ .took t :: later ∧ Kept later
  /-- Nothing is given back before the first switch. -/
  first : ∀ before after, acts = before ++ after → Untaken before → Kept before
  /-- Between two times that control is given back it is taken. -/
  once : ∀ before t between t' after,
    acts = before ++ .gaveBack t :: (between ++ .gaveBack t' :: after) → ¬ Untaken between
  /-- Control is given back 500 ms after the last switch or later. -/
  late : ∀ earlier t later t' after,
    acts = earlier ++ .took t :: (later ++ .gaveBack t' :: after) → Untaken later →
      t + GRACE + PUSH ≤ t'

/-! ## The abstract machine -/

/-- Since when the client has control. -/
def Session : LTS (Option Instant) Act where
  init s := s = none
  next
    | _, .took t => some (some t)
    | some since, .injected _ => some (some since)
    | some since, .gaveBack t => if since + GRACE + PUSH ≤ t then some none else none
    | none, _ => none

namespace Session

/-- Runs of the abstract machine. -/
abbrev Runs (s : Option Instant) (acts : List Act) (s' : Option Instant) : Prop :=
  Session.Steps LTS.anyStep s acts s'

variable {s s' : Option Instant} {acts : List Act}

/-- A run may be cut between any two acts. -/
theorem runs_append {acts₁ acts₂ : List Act} (h : Runs s (acts₁ ++ acts₂) s') :
    ∃ mid, Runs s acts₁ mid ∧ Runs mid acts₂ s' := by
  induction acts₁ generalizing s with
  | nil => exact ⟨s, .nil s, h⟩
  | cons a acts₁ ih =>
      cases h with
      | cons hg hn hrest =>
          obtain ⟨mid, h₁, h₂⟩ := ih hrest
          exact ⟨mid, .cons hg hn h₁, h₂⟩

/-- The first act of a run, and the run that is left. -/
theorem runs_cons {a : Act} (h : Runs s (a :: acts) s') :
    ∃ mid, Session.next s a = some mid ∧ Runs mid acts s' := by
  cases h with
  | cons _ hn hrest => exact ⟨_, hn, hrest⟩

theorem of_injected {mid : Option Instant} {e : Emission}
    (h : Session.next s (.injected e) = some mid) :
    s = mid ∧ ∃ since, s = some since := by
  cases s with
  | none => cases h
  | some since => exact ⟨Option.some.inj h, since, rfl⟩

theorem of_gaveBack {mid : Option Instant} {t : Instant} (h : Session.next s (.gaveBack t) = some mid) :
    mid = none ∧ ∃ since, s = some since ∧ since + GRACE + PUSH ≤ t := by
  cases s with
  | none => cases h
  | some since =>
      simp only [Session] at h
      split at h
      · rename_i hlate
        exact ⟨(Option.some.inj h).symm, since, rfl, hlate⟩
      · cases h

/-- Without control nothing happens before it is taken. -/
theorem nil_of_untaken (h : Runs none acts s') (huntaken : Untaken acts) : acts = [] := by
  cases acts with
  | nil => rfl
  | cons a acts =>
      obtain ⟨mid, hn, _⟩ := runs_cons h
      cases a with
      | took t => exact absurd (List.mem_cons_self ..) (huntaken t)
      | injected e => cases hn
      | gaveBack t => cases hn

/-- Until control is taken again, it is held since the same time or not at all. -/
theorem since_of_untaken {since : Instant} (h : Runs (some since) acts s') (huntaken : Untaken acts) :
    s' = some since ∨ s' = none := by
  induction acts with
  | nil =>
      cases h
      exact Or.inl rfl
  | cons a acts ih =>
      obtain ⟨mid, hn, hrest⟩ := runs_cons h
      have hlater : Untaken acts := fun t ht => huntaken t (List.mem_cons_of_mem a ht)
      cases a with
      | took t => exact absurd (List.mem_cons_self ..) (huntaken t)
      | injected e =>
          obtain ⟨hsame, _⟩ := of_injected hn
          rw [← hsame] at hrest
          exact ih hrest hlater
      | gaveBack t =>
          obtain ⟨hnone, _⟩ := of_gaveBack hn
          rw [hnone] at hrest
          rw [nil_of_untaken hrest hlater] at hrest
          cases hrest
          exact Or.inr rfl

/-- Control that is held at the end was taken, and kept since. -/
theorem taken_of_runs {since : Instant} (h : Runs none acts (some since)) :
    ∃ earlier later, acts = earlier ++ .took since :: later ∧ Kept later := by
  induction acts using List.reverseRecOn with
  | nil => cases h
  | append_singleton acts a ih =>
      obtain ⟨mid, hbefore, hlast⟩ := runs_append h
      obtain ⟨mid', hn, hend⟩ := runs_cons hlast
      cases hend
      cases a with
      | took t =>
          cases Option.some.inj hn
          exact ⟨acts, [], rfl, fun _ => List.not_mem_nil⟩
      | injected e =>
          rw [(of_injected hn).1] at hbefore
          obtain ⟨earlier, later, hsplit, hkept⟩ := ih hbefore
          refine ⟨earlier, later ++ [.injected e], ?_, ?_⟩
          · rw [hsplit, List.append_assoc, List.cons_append]
          · intro t ht
            rcases List.mem_append.mp ht with hin | hlast
            · exact hkept t hin
            · cases List.mem_singleton.mp hlast
      | gaveBack t => cases (of_gaveBack hn).1

/-- The laws hold of every run of the abstract machine. -/
theorem disciplined_of_session (h : Runs none acts s') : Disciplined acts := by
  refine ⟨?_, ?_, ?_, ?_⟩
  -- an injection comes with control, so after a switch that no hand-back followed
  · rintro before e after rfl
    obtain ⟨mid, hbefore, hafter⟩ := runs_append h
    obtain ⟨_, hn, _⟩ := runs_cons hafter
    obtain ⟨_, since, hmid⟩ := of_injected hn
    rw [hmid] at hbefore
    obtain ⟨earlier, later, hsplit, hkept⟩ := taken_of_runs hbefore
    exact ⟨earlier, since, later, hsplit, hkept⟩
  -- before the first switch there is nothing
  · rintro before after rfl huntaken
    obtain ⟨mid, hbefore, _⟩ := runs_append h
    rw [nil_of_untaken hbefore huntaken]
    exact fun _ => List.not_mem_nil
  -- a hand-back takes control away, so two of them have a switch between them
  · rintro before t between t' after rfl huntaken
    obtain ⟨mid, _, hafter⟩ := runs_append h
    obtain ⟨mid₁, hn, hrest⟩ := runs_cons hafter
    rw [(of_gaveBack hn).1] at hrest
    obtain ⟨mid₂, hbetween, hlast⟩ := runs_append hrest
    rw [nil_of_untaken hbetween huntaken] at hbetween
    cases hbetween
    obtain ⟨mid₃, hn', _⟩ := runs_cons hlast
    cases hn'
  -- what was taken last is what the hand-back is timed against
  · rintro earlier t later t' after rfl huntaken
    obtain ⟨mid, _, hafter⟩ := runs_append h
    obtain ⟨mid₁, hn, hrest⟩ := runs_cons hafter
    obtain rfl : some t = mid₁ := by
      cases mid <;> exact Option.some.inj hn
    obtain ⟨mid₂, hlater, hlast⟩ := runs_append hrest
    obtain ⟨mid₃, hn', _⟩ := runs_cons hlast
    obtain ⟨_, since, hsince, hlate⟩ := of_gaveBack hn'
    rcases since_of_untaken hlater huntaken with hsame | hnone
    · rw [hsame] at hsince
      cases hsince
      exact hlate
    · rw [hnone] at hsince
      cases hsince

end Session

/-! ## The client's acts -/

namespace Client

/-- What the devices were handed between two states of a client. -/
def injections (c c' : Client) : List Act :=
  (c'.injector.emitted.drop c.injector.emitted.length).map Act.injected

/-- The acts of a message, as it is applied. -/
def messageActs (c : Client) (msg : Message) (now : Instant) : List Act :=
  (if msg.isSwitch then [Act.took now] else []) ++ c.injections (c.applyMessage msg now).1

/-- The acts of messages in a row. -/
def restActs (c : Client) : List (Message × Instant) → List Act
  | [] => []
  | m :: rest => c.messageActs m.1 m.2 ++ (c.applyMessage m.1 m.2).1.restActs rest

/-- The acts at the end of a batch. -/
def endActs (c : Client) (clock : ExitClock) (total : Int32 × Int32) : List Act :=
  c.injections (c.useMotion clock total).1 ++
    if (c.useMotion clock total).2 then [Act.gaveBack clock.push] else []

/-- The acts of a batch, those of its motion at the end. -/
def batchActs (c : Client) (b : Batch) : List Act :=
  c.restActs (b.first :: b.rest) ++ (c.applyBatch b).1.endActs b.exit (c.applyBatch b).2

/-- The acts of a client that takes these batches in turn. -/
def acts (c : Client) : List Batch → List Act
  | [] => []
  | b :: batches => c.batchActs b ++ (c.handleBatch b).1.acts batches

/-! ## The client refines the abstract machine -/

/-- Since when a client has control. -/
def since (c : Client) : Option Instant :=
  if c.state.active then some c.state.switchTime else none

/-- A push that is being timed began after the grace period. -/
def PushLate (c : Client) : Prop :=
  c.state.edgePushing = true → c.state.switchTime + GRACE ≤ c.state.edgePushStart

theorem injections_same {c c' : Client} (h : c'.injector = c.injector) : c.injections c' = [] := by
  rw [injections, h, List.drop_length, List.map_nil]

/-- Injecting with control, or nothing at all, keeps the abstract state. -/
theorem runs_injections {c c' : Client} (h : c.state.active = true ∨ c'.injector = c.injector) :
    Session.Runs c.since (c.injections c') c.since := by
  rcases h with hactive | hsame
  · rw [since, if_pos hactive, injections]
    induction c'.injector.emitted.drop c.injector.emitted.length with
    | nil => exact .nil _
    | cons e emissions ih => exact .cons trivial rfl ih
  · rw [injections_same hsame]
    exact .nil _

/-- A message other than a switch leaves the state alone, and injects with control only. -/
theorem applyMessage_other (c : Client) {msg : Message} (hmsg : msg.isSwitch = false)
    (now : Instant) : (c.applyMessage msg now).1.state = c.state ∧
      (c.state.active = true ∨ (c.applyMessage msg now).1.injector = c.injector) := by
  unfold Message.isSwitch at hmsg
  unfold applyMessage
  rcases htype : msg.msgType
  case switchToClient =>
    rw [htype] at hmsg
    cases hmsg
  case clipboardData =>
    simp only
    unfold applyClipboard
    split
    · exact ⟨rfl, Or.inr rfl⟩
    · exact ⟨rfl, Or.inr rfl⟩
  all_goals
    rcases hactive : c.state.active
    · simp
    · simp

theorem runs_message {c : Client} (hlate : c.PushLate) (msg : Message) (now : Instant) :
    Session.Runs c.since (c.messageActs msg now) (c.applyMessage msg now).1.since ∧
      (c.applyMessage msg now).1.PushLate := by
  cases hswitch : msg.isSwitch with
  | true =>
      have happlied : (c.applyMessage msg now).1 = c.takeControl msg now :=
        congrArg Prod.fst (c.applyMessage_of_isSwitch hswitch now)
      have hnothing : c.injections (c.applyMessage msg now).1 = [] := by
        rw [happlied]
        exact injections_same rfl
      rw [messageActs, hswitch, hnothing, happlied]
      refine ⟨.cons trivial ?_ (.nil _), ?_⟩
      · cases c.since <;> rfl
      · intro hpushing
        cases hpushing
  | false =>
      obtain ⟨hstate, hinjected⟩ := c.applyMessage_other hswitch now
      have hsince : (c.applyMessage msg now).1.since = c.since := by
        rw [since, hstate, since]
      rw [messageActs, hswitch, hsince]
      refine ⟨runs_injections hinjected, ?_⟩
      rw [PushLate, hstate]
      exact hlate

theorem runs_rest {c : Client} (hlate : c.PushLate) (total : Int32 × Int32)
    (rest : List (Message × Instant)) :
    Session.Runs c.since (c.restActs rest) (c.applyRest total rest).1.since ∧
      (c.applyRest total rest).1.PushLate := by
  induction rest generalizing c total with
  | nil => exact ⟨.nil _, hlate⟩
  | cons m rest ih =>
      obtain ⟨hone, hlate'⟩ := runs_message hlate m.1 m.2
      obtain ⟨hrest, hend⟩ := ih hlate' (total.1 + (c.applyMessage m.1 m.2).2.1,
        total.2 + (c.applyMessage m.1 m.2).2.2)
      exact ⟨hone.append hrest, hend⟩

/-- What a check of the edge does to the timers, if its readings are in order: the push it times
began after the grace period, and an exit comes when that push is over. -/
theorem checkExitEdge_timers {s : ClientState} {clock : ExitClock} (hclock : clock.grace ≤ clock.start)
    (hlate : s.edgePushing = true → s.switchTime + GRACE ≤ s.edgePushStart) (x y dx dy : Int32) :
    (s.checkExitEdge clock x y dx dy).2.switchTime = s.switchTime ∧
      ((s.checkExitEdge clock x y dx dy).2.edgePushing = true →
        s.switchTime + GRACE ≤ (s.checkExitEdge clock x y dx dy).2.edgePushStart) ∧
      ((s.checkExitEdge clock x y dx dy).1 = true → s.switchTime + GRACE + PUSH ≤ clock.push) := by
  unfold ClientState.checkExitEdge
  split
  · exact ⟨rfl, hlate, nofun⟩
  · split
    · exact ⟨rfl, hlate, nofun⟩
    · rename_i hgrace
      have hgrace : s.switchTime + GRACE ≤ clock.grace :=
        le_of_durationSince (by decide) (Nat.le_of_not_lt hgrace)
      simp only
      split
      · -- a push that is not being timed yet begins now
        have hstart : s.switchTime + GRACE ≤
            (if s.edgePushing = true then s
              else { s with edgePushStart := clock.start, edgePushing := true }).edgePushStart := by
          split
          · rename_i hpushing
            exact hlate hpushing
          · exact Nat.le_trans hgrace hclock
        have hswitch : (if s.edgePushing = true then s
            else { s with edgePushStart := clock.start, edgePushing := true }).switchTime
              = s.switchTime := by
          split <;> rfl
        generalize (if s.edgePushing = true then s
          else { s with edgePushStart := clock.start, edgePushing := true }) = pushed
          at hstart hswitch ⊢
        split
        · rename_i hpush
          refine ⟨hswitch, nofun, fun _ => ?_⟩
          exact Nat.le_trans (Nat.add_le_add_right hstart PUSH) (le_of_durationSince (by decide) hpush)
        · exact ⟨hswitch, fun _ => hstart, nofun⟩
      · split
        · exact ⟨rfl, nofun, nofun⟩
        · exact ⟨rfl, hlate, nofun⟩

/-- Injecting with control, which stays. -/
theorem runs_kept {c c' : Client} (hactive : c.state.active = true)
    (hactive' : c'.state.active = true) (hsame : c'.state.switchTime = c.state.switchTime) :
    Session.Runs c.since (c.injections c') c'.since := by
  have hsince : c'.since = c.since := by
    rw [since, if_pos hactive', hsame, since, if_pos hactive]
  rw [hsince]
  exact runs_injections (Or.inl hactive)

/-- Control is given back, long enough after it was taken, and nothing is injected. -/
theorem runs_gaveBack {c c' : Client} (hactive : c.state.active = true)
    (hoff : c'.state.active = false) (hsame : c'.injector = c.injector) {t : Instant}
    (hlong : c.state.switchTime + GRACE + PUSH ≤ t) :
    Session.Runs c.since (c.injections c' ++ [Act.gaveBack t]) c'.since := by
  have hnone : c'.since = none := by
    rw [since, hoff]
    rfl
  rw [injections_same hsame, hnone, since, if_pos hactive]
  refine .cons trivial ?_ (.nil none)
  show (if _ then _ else _) = _
  rw [if_pos hlong]

theorem runs_end {c : Client} (hlate : c.PushLate) {clock : ExitClock}
    (hclock : clock.grace ≤ clock.start) {total : Int32 × Int32}
    (hstill : c.state.active = false → total = 0) :
    Session.Runs c.since (c.endActs clock total) (c.useMotion clock total).1.since ∧
      (c.useMotion clock total).1.PushLate := by
  by_cases hmoved : total.1 ≠ 0 ∨ total.2 ≠ 0
  · have hactive : c.state.active = true := by
      by_contra hoff
      rw [hstill (Bool.not_eq_true _ ▸ hoff)] at hmoved
      rcases hmoved with hx | hy
      · exact hx rfl
      · exact hy rfl
    obtain ⟨hswitch, hpush, hexit⟩ := checkExitEdge_timers
      (s := (c.movePointer total.1 total.2).state) hclock hlate
      (c.movePointer total.1 total.2).state.mouseX (c.movePointer total.1 total.2).state.mouseY
      total.1 total.2
    have hstays := checkExitEdge_active clock (c.movePointer total.1 total.2).state
      (c.movePointer total.1 total.2).state.mouseX (c.movePointer total.1 total.2).state.mouseY
      total.1 total.2
    unfold endActs useMotion
    simp only [hmoved, if_true]
    generalize ClientState.checkExitEdge clock (c.movePointer total.1 total.2).state _ _ _ _ = checked
      at hswitch hpush hexit hstays ⊢
    obtain ⟨exits, state⟩ := checked
    have hsame : state.switchTime = c.state.switchTime := hswitch
    have hpush' : state.edgePushing = true → state.switchTime + GRACE ≤ state.edgePushStart := by
      rw [hsame]
      exact hpush
    cases exits with
    | true =>
        -- control is given back; the motion of the batch is dropped
        refine ⟨?_, hpush'⟩
        simp only [if_true]
        refine runs_gaveBack hactive ?_ ?_ (hexit rfl)
        · rfl
        · rfl
    | false =>
        refine ⟨?_, hpush'⟩
        simp only [Bool.false_eq_true, if_false, List.append_nil]
        exact runs_kept hactive (hstays.trans hactive) hsame
  · -- nothing to use
    unfold endActs useMotion
    simp only [hmoved, if_false]
    rw [injections_same rfl]
    exact ⟨.nil _, hlate⟩

/-- A batch is a run of the abstract machine. -/
theorem runs_batch {c : Client} (hlate : c.PushLate) {b : Batch}
    (hclock : b.exit.grace ≤ b.exit.start) :
    Session.Runs c.since (c.batchActs b) (c.handleBatch b).1.since ∧ (c.handleBatch b).1.PushLate := by
  obtain ⟨hone, hlate₁⟩ := runs_message hlate b.first.1 b.first.2
  obtain ⟨hrest, hlate₂⟩ := runs_rest hlate₁ (c.applyMessage b.first.1 b.first.2).2 b.rest
  obtain ⟨hend, hlate₃⟩ := runs_end (c := (c.applyBatch b).1) hlate₂ hclock (c.applyBatch_control b).2
  exact ⟨(hone.append hrest).append hend, hlate₃⟩

theorem runs_acts {c : Client} (hlate : c.PushLate) {batches : List Batch}
    (hclock : ∀ b ∈ batches, b.exit.grace ≤ b.exit.start) :
    ∃ s', Session.Runs c.since (c.acts batches) s' := by
  induction batches generalizing c with
  | nil => exact ⟨_, .nil _⟩
  | cons b batches ih =>
      obtain ⟨hone, hlate'⟩ := runs_batch hlate (hclock b (List.mem_cons_self ..))
      obtain ⟨s', hrest⟩ := ih hlate' fun b' hb' => hclock b' (List.mem_cons_of_mem b hb')
      exact ⟨s', hone.append hrest⟩

end Client

/-- For every sequence of messages, every batching and every clock whose readings are in order, what a
client does is disciplined. -/
theorem session_disciplined (config : ClientConfig) (clipboard : ClipboardManager)
    (now₁ now₂ : Instant) (ack : Message) (batches : List Batch)
    (hclock : ∀ b ∈ batches, b.exit.grace ≤ b.exit.start) :
    Disciplined ((Client.connected config clipboard now₁ now₂ ack).acts batches) := by
  obtain ⟨s', hruns⟩ := Client.runs_acts (c := Client.connected config clipboard now₁ now₂ ack)
    (by intro hpushing; cases hpushing) hclock
  exact Session.disciplined_of_session hruns

/-- The laptop takes control next to its right edge, is pushed over it for 400 ms, and lets go with a
key in the same batch. -/
def pushedBack : List Batch :=
  let ms (n : Nat) : Instant := Duration.fromMillis n
  [⟨(Message.switchToClient 795 240, ms 1000), [], ⟨ms 1000, ms 1000, ms 1000⟩⟩,
    ⟨(Message.mouseMove 0 0 20 0, ms 1300), [], ⟨ms 1300, ms 1300, ms 1300⟩⟩,
    ⟨(Message.mouseMove 0 0 5 0, ms 1700), [(Message.keyEvent 30 1, ms 1700)],
      ⟨ms 1700, ms 1700, ms 1700⟩⟩]

theorem session_disciplined_pushedBack :
    let c := Client.connected laptop ClipboardManager.new 0 0 (Message.handshakeAck "left" 640 480)
    Disciplined (c.acts pushedBack) ∧ c.acts pushedBack =
      [.took (Duration.fromMillis 1000),
        .injected ⟨.mouse, [⟨.relative, REL_X, 20⟩, InputInjector.sync]⟩,
        .injected ⟨.keyboard, [⟨.key, 30, 1⟩, InputInjector.sync]⟩,
        .gaveBack (Duration.fromMillis 1700)] :=
  ⟨session_disciplined laptop ClipboardManager.new 0 0 (Message.handshakeAck "left" 640 480) pushedBack
    (by decide), rfl⟩

end Bluecross
