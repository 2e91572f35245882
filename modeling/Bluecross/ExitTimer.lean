/-
# Bluecross.ExitTimer — when an outward push hands control back.

`check_exit_edge` keeps one time and one flag. What they are for is a condition on the whole history of
its calls and of the resets between them: some earlier call began a push that has been kept up since,
and that is long enough ago (`TimedOut`). `ExitRun` runs the client on resets and calls in any order and
writes that history beside it.

The flag and the time are a `HoldTimer`. A push arms it, a stationary pointer at the edge and the grace
period leave it alone, everything else stops it. So what it remembers is tracked by the library, and
what is left here is that a push that is kept up stays outside of the grace period.
-/
import Bluecross.SessionDiscipline
import Bluecross.Lib.HoldTimer

namespace Bluecross

open Lib (Signal)
open Lib.HoldTimer (Tracks)

/-! ## Histories -/

/-- What is done to the timer of a client. -/
inductive ExitOp where
  /-- A `SwitchToClient` is applied. -/
  | reset (payload : Value)
  /-- `check_exit_edge` is called. -/
  | check (x y dx dy : Int32)

/-- An operation, the clock at it, the last reset before it, and what it returned. -/
structure ExitCall where
  op : ExitOp
  time : Instant
  lastReset : Instant
  returned : Bool

/-- A client with the history of its exit checks. -/
structure ExitRun where
  client : Client
  lastReset : Instant
  calls : List ExitCall

namespace ExitRun

/-- A new client counts as reset when it was made. -/
def start (config : ClientConfig) (clipboard : ClipboardManager) (now₁ now₂ : Instant)
    (ack : Message) : ExitRun where
  client := Client.connected config clipboard now₁ now₂ ack
  lastReset := now₁
  calls := []

/-- One call, with the one reading of the clock that it sees. -/
def step (r : ExitRun) (op : ExitOp) (now : Instant) : ExitRun :=
  match op with
  | .reset payload =>
      { client := (r.client.applyMessage ⟨.switchToClient, payload⟩ now).1
        lastReset := now
        calls := r.calls ++ [⟨.reset payload, now, r.lastReset, false⟩] }
  | .check x y dx dy =>
      let (returned, state) := r.client.state.checkExitEdge ⟨now, now, now⟩ x y dx dy
      { client := { r.client with state := state }
        lastReset := r.lastReset
        calls := r.calls ++ [⟨.check x y dx dy, now, r.lastReset, returned⟩] }

/-- Calls in a row. -/
def run (r : ExitRun) : List (ExitOp × Instant) → ExitRun
  | [] => r
  | (op, now) :: ops => (r.step op now).run ops

end ExitRun

namespace ExitOp

/-- Where a call finds the pointer: at the edge towards the server, pushing outward, moving inward. -/
def test (s : ClientState) : ExitOp → Option (Bool × Bool × Bool)
  | .reset _ => none
  | .check x y dx dy =>
      s.position.map fun p =>
        ClientState.edgeTest p s.config.screenWidth s.config.screenHeight x y dx dy

/-- A call at the edge that pushes outward. -/
def Pushes (s : ClientState) (op : ExitOp) : Prop := ∃ away, op.test s = some (true, true, away)

/-- A call at the edge that does not move away. -/
def Stays (s : ClientState) (op : ExitOp) : Prop := ∃ pushing, op.test s = some (true, pushing, false)

end ExitOp

/-- What a call has to find in the history to return `true`: it pushes at the edge outside of the grace
period, and so did a call that is 300 ms old, and since then every operation was a call that stayed at
the edge and returned `false`. -/
structure TimedOut (s : ClientState) (earlier : List ExitCall) (lastReset : Instant) (op : ExitOp)
    (now : Instant) : Prop where
  settled : lastReset + GRACE ≤ now
  pushes : op.Pushes s
  stays : op.Stays s
  since : ∃ before i between, earlier = before ++ i :: between ∧
    i.time + PUSH ≤ now ∧ i.lastReset + GRACE ≤ i.time ∧ i.op.Pushes s ∧
    ∀ e ∈ i :: between, e.op.Stays s ∧ e.returned = false

/-! ## The timer -/

/-- Since when a push is timed. -/
def ClientState.timer (s : ClientState) : Option Instant :=
  if s.edgePushing then some s.edgePushStart else none

/-- What a test tells the timer. -/
def edgeSignal (test : Bool × Bool × Bool) (lastReset now : Instant) : Signal :=
  if Instant.durationSince now lastReset < GRACE then .keep
  else if test.1 ∧ test.2.1 then .arm
  else if test.2.2 ∨ ¬ test.1 then .stop
  else .keep

/-- What an operation tells the timer. A reset stops it. -/
def ExitCall.signal (s : ClientState) (e : ExitCall) : Signal :=
  match e.op.test s with
  | none => .stop
  | some test => edgeSignal test e.lastReset e.time

/-- The calls read as the inputs of a hold timer. -/
def exitReading (s : ClientState) : Lib.HoldTimer.Reading ExitCall where
  signal := ExitCall.signal s
  time := ExitCall.time
  rang := ExitCall.returned

section

variable {s : ClientState} {p : ScreenPosition} {x y dx dy : Int32}

theorem checkExitEdge_of_no_position {clock : ExitClock} (h : s.position = none) :
    s.checkExitEdge clock x y dx dy = (false, s) := by
  simp only [ClientState.checkExitEdge, h]

/-- A check does to the timer what its test tells it, and touches nothing else. -/
theorem checkExitEdge_timer (hp : s.position = some p) (now : Instant) (x y dx dy : Int32) :
    let test := ClientState.edgeTest p s.config.screenWidth s.config.screenHeight x y dx dy
    let after := Lib.HoldTimer.step PUSH s.timer (edgeSignal test s.switchTime now) now
    let checked := s.checkExitEdge ⟨now, now, now⟩ x y dx dy
    checked.1 = after.1 ∧ checked.2.timer = after.2 ∧ checked.2.position = s.position ∧
      checked.2.config = s.config ∧ checked.2.switchTime = s.switchTime := by
  intro test after checked
  have hpush : 0 < PUSH := by decide
  unfold checked after ClientState.checkExitEdge
  simp only [hp]
  rcases htest : ClientState.edgeTest p s.config.screenWidth s.config.screenHeight x y dx dy with
    ⟨atEdge, pushing, away⟩
  have hsame : test = (atEdge, pushing, away) := htest
  rw [hsame]
  unfold edgeSignal GRACE
  by_cases hgrace : Instant.durationSince now s.switchTime < Duration.fromMillis 200
  · rw [if_pos hgrace, if_pos hgrace]
    exact ⟨rfl, rfl, hp, rfl, rfl⟩
  · rw [if_neg hgrace, if_neg hgrace]
    by_cases hout : atEdge = true ∧ pushing = true
    · rw [if_pos hout, if_pos hout]
      have hlong (start : Instant) : Duration.fromMillis 300 ≤ Instant.durationSince now start ↔
          start + PUSH ≤ now := by
        refine ⟨le_of_durationSince hpush, ?_⟩
        intro h
        exact Nat.le_sub_of_add_le' h
      unfold ClientState.timer Lib.HoldTimer.step
      simp only [hlong]
      cases hrunning : s.edgePushing with
      | true =>
          simp only [if_true, Option.getD_some]
          by_cases h : s.edgePushStart + PUSH ≤ now
          · simp [h, hp]
          · simp [h, hp, hrunning]
      | false =>
          have h : ¬ now + PUSH ≤ now := Nat.not_le.mpr (Nat.lt_add_of_pos_right hpush)
          simp [h]
    · rw [if_neg hout, if_neg hout]
      by_cases hstop : away = true ∨ ¬ atEdge = true
      · rw [if_pos hstop, if_pos hstop]
        exact ⟨rfl, rfl, rfl, rfl, rfl⟩
      · rw [if_neg hstop, if_neg hstop]
        exact ⟨rfl, rfl, hp, rfl, rfl⟩

/-- Pushing outward and moving inward exclude each other. -/
theorem edgeTest_exclusive {w h : Int32} {atEdge pushing away : Bool}
    (htest : ClientState.edgeTest p w h x y dx dy = (atEdge, pushing, away)) (hout : pushing = true) :
    away = false := by
  cases p <;>
  · simp only [ClientState.edgeTest, Prod.mk.injEq] at htest
    obtain ⟨-, rfl, rfl⟩ := htest
    simp only [decide_eq_true_eq, decide_eq_false_iff_not] at hout ⊢
    grind

/-- A push does not move away. -/
theorem ExitOp.Pushes.stays {op : ExitOp} (h : op.Pushes s) : op.Stays s := by
  obtain ⟨away, htest⟩ := h
  cases op with
  | reset payload => cases htest
  | check x y dx dy =>
      obtain ⟨p, hp, hedge⟩ := Option.map_eq_some_iff.mp htest
      rw [edgeTest_exclusive hedge rfl] at htest
      exact ⟨true, htest⟩

end

/-! ## What an operation tells the timer -/

theorem not_in_grace {lastReset now : Instant} :
    ¬ Instant.durationSince now lastReset < GRACE ↔ lastReset + GRACE ≤ now := by
  constructor
  · intro h
    exact le_of_durationSince (by decide) (Nat.not_lt.mp h)
  · intro h
    exact Nat.not_lt.mpr (Nat.le_sub_of_add_le' h)

section

variable {s : ClientState} {e : ExitCall}

/-- Outside of the grace period a push arms the timer, and nothing else does. -/
theorem signal_eq_arm : e.signal s = .arm ↔ e.lastReset + GRACE ≤ e.time ∧ e.op.Pushes s := by
  unfold ExitCall.signal ExitOp.Pushes
  cases htest : e.op.test s with
  | none => simp
  | some test =>
      obtain ⟨atEdge, pushing, away⟩ := test
      rw [← not_in_grace]
      unfold edgeSignal
      by_cases hgrace : Instant.durationSince e.time e.lastReset < GRACE
      · simp [hgrace]
      · cases atEdge <;> cases pushing <;> cases away <;> simp [hgrace]

/-- A call that stays at the edge does not stop the timer. -/
theorem signal_ne_stop (h : e.op.Stays s) : e.signal s ≠ .stop := by
  obtain ⟨pushing, htest⟩ := h
  simp only [ExitCall.signal, htest, edgeSignal]
  by_cases hgrace : Instant.durationSince e.time e.lastReset < GRACE
  · simp [hgrace]
  · cases pushing <;> simp [hgrace]

/-- Outside of the grace period, what does not stop the timer is a call that stays at the edge. -/
theorem stays_of_signal (hsettled : e.lastReset + GRACE ≤ e.time) (h : e.signal s ≠ .stop) :
    e.op.Stays s := by
  by_cases harm : e.signal s = .arm
  · exact (signal_eq_arm.mp harm).2.stays
  · unfold ExitCall.signal at h harm
    cases htest : e.op.test s with
    | none =>
        rw [htest] at h
        exact absurd rfl h
    | some test =>
        obtain ⟨atEdge, pushing, away⟩ := test
        rw [htest] at h harm
        simp only [edgeSignal, if_neg (not_in_grace.mpr hsettled)] at h harm
        -- neither armed nor stopped: at the edge, and still
        cases atEdge <;> cases pushing <;> cases away <;> simp at h harm
        exact ⟨false, htest⟩

end

/-! ## The run keeps state and history together -/

/-- What the client remembers stands for the history of its checks. -/
structure ExitRun.Faithful (s₀ : ClientState) (r : ExitRun) : Prop where
  position : r.client.state.position = s₀.position
  config : r.client.state.config = s₀.config
  reset : r.client.state.switchTime = r.lastReset
  timer : Tracks (exitReading s₀) r.calls r.client.state.timer
  /-- Since the last reset the operations are calls that know it. -/
  since : ∀ before after, r.calls = before ++ after → (∀ e ∈ after, e.op.test s₀ ≠ none) →
    ∀ e ∈ after, e.lastReset = r.lastReset

namespace ExitRun

variable {s₀ : ClientState} {r : ExitRun} {now : Instant} {p : ScreenPosition}

theorem faithful_start (config : ClientConfig) (clipboard : ClipboardManager) (now₁ now₂ : Instant)
    (ack : Message) :
    Faithful (Client.connected config clipboard now₁ now₂ ack).state
      (start config clipboard now₁ now₂ ack) := by
  refine ⟨rfl, rfl, rfl, Lib.HoldTimer.tracks_nil, ?_⟩
  intro before after hsplit _ e he
  obtain ⟨rfl, rfl⟩ := List.append_eq_nil_iff.mp hsplit.symm
  cases he

/-- The history after one more operation, cut in two. -/
theorem since_step {calls : List ExitCall} {e : ExitCall} {last last' : Instant}
    (h : ∀ before after, calls = before ++ after → (∀ e ∈ after, e.op.test s₀ ≠ none) →
      ∀ e ∈ after, e.lastReset = last)
    (he : e.op.test s₀ ≠ none → e.lastReset = last ∧ last' = last) :
    ∀ before after, calls ++ [e] = before ++ after → (∀ e ∈ after, e.op.test s₀ ≠ none) →
      ∀ e ∈ after, e.lastReset = last' := by
  intro before after hsplit hcalls
  rcases List.eq_nil_or_concat after with rfl | ⟨earlier, latest, rfl⟩
  · nofun
  · rw [List.concat_eq_append, ← List.append_assoc] at hsplit
    rw [List.concat_eq_append] at hcalls ⊢
    obtain ⟨hcut, hlatest⟩ := List.append_inj' hsplit rfl
    obtain rfl := List.singleton_inj.mp hlatest
    obtain ⟨hlast, rfl⟩ := he (hcalls e (by simp))
    intro e' he'
    rcases List.mem_append.mp he' with hold | hnew
    · exact h before earlier hcut (fun e' he' => hcalls e' (List.mem_append_left _ he')) e' hold
    · rw [List.mem_singleton.mp hnew]
      exact hlast

/-- A check finds the pointer where its entry in the history says. -/
theorem Faithful.signal_eq (h : Faithful s₀ r) (hp : s₀.position = some p) (x y dx dy : Int32)
    (returned : Bool) :
    edgeSignal (ClientState.edgeTest p r.client.state.config.screenWidth
        r.client.state.config.screenHeight x y dx dy) r.client.state.switchTime now =
      ExitCall.signal s₀ ⟨.check x y dx dy, now, r.lastReset, returned⟩ := by
  simp only [ExitCall.signal, ExitOp.test, hp, h.config, h.reset, Option.map_some]

/-- One operation, at a time that is not earlier than the others. -/
theorem Faithful.step (h : Faithful s₀ r) (hp : s₀.position = some p) (op : ExitOp)
    (hclock : ∀ e ∈ r.calls, e.time ≤ now) : Faithful s₀ (r.step op now) := by
  cases op with
  | reset payload =>
      let e : ExitCall := ⟨.reset payload, now, r.lastReset, false⟩
      refine ⟨h.position, h.config, rfl, ?_, ?_⟩
      · exact h.timer.step (d := PUSH) (e := e) hclock rfl
      · exact since_step h.since (fun hcall => absurd rfl hcall)
  | check x y dx dy =>
      have hp' : r.client.state.position = some p := h.position.trans hp
      obtain ⟨hreturned, htimer, hposition, hconfig, hswitch⟩ :=
        checkExitEdge_timer hp' now x y dx dy
      let e : ExitCall := ⟨.check x y dx dy, now, r.lastReset,
        (r.client.state.checkExitEdge ⟨now, now, now⟩ x y dx dy).1⟩
      rw [h.signal_eq hp x y dx dy e.returned] at hreturned htimer
      refine ⟨hposition.trans h.position, hconfig.trans h.config, hswitch.trans h.reset, ?_, ?_⟩
      · have htracks : Tracks (exitReading s₀) (r.calls ++ [e])
            (Lib.HoldTimer.step PUSH r.client.state.timer (e.signal s₀) now).2 :=
          h.timer.step hclock hreturned
        rw [← htimer] at htracks
        exact htracks
      · exact since_step h.since (fun _ => ⟨rfl, rfl⟩)

/-- Operations one after the other, at times that do not go back. -/
theorem Faithful.run (h : Faithful s₀ r) (hp : s₀.position = some p)
    (ops : List (ExitOp × Instant))
    (hclock : (r.calls.map ExitCall.time ++ ops.map Prod.snd).Pairwise (· ≤ ·)) :
    Faithful s₀ (r.run ops) ∧
      (r.run ops).calls.map ExitCall.time = r.calls.map ExitCall.time ++ ops.map Prod.snd := by
  induction ops generalizing r with
  | nil => exact ⟨h, by simp [ExitRun.run]⟩
  | cons op ops ih =>
      obtain ⟨op, now⟩ := op
      have htimes : (r.step op now).calls.map ExitCall.time = r.calls.map ExitCall.time ++ [now] := by
        cases op <;> simp [ExitRun.step]
      have hearlier : ∀ e ∈ r.calls, e.time ≤ now := by
        intro e he
        exact (List.pairwise_append.mp hclock).2.2 _ (List.mem_map_of_mem he) now (by simp)
      have hnext := ih (h.step hp op hearlier) (by simpa [htimes] using hclock)
      rw [htimes] at hnext
      simpa [ExitRun.run] using hnext

/-- Without a position there is no edge, and none is gained on the way. -/
theorem run_no_position (h : r.client.state.position = none) (ops : List (ExitOp × Instant)) :
    (r.run ops).client.state.position = none := by
  induction ops generalizing r with
  | nil => exact h
  | cons op ops ih =>
      obtain ⟨op, now⟩ := op
      apply ih
      cases op with
      | reset payload => exact h
      | check x y dx dy => simp only [ExitRun.step, checkExitEdge_of_no_position h, h]

/-- What is held since some time is a push that was kept up outside of the grace period. -/
theorem Faithful.heldSince_iff (h : Faithful s₀ r)
    (hclock : (r.calls.map ExitCall.time).Pairwise (· ≤ ·)) (t : Instant) :
    (exitReading s₀).HeldSince r.calls t ↔
      ∃ before i between, r.calls = before ++ i :: between ∧ i.time = t ∧
        i.lastReset + GRACE ≤ i.time ∧ i.op.Pushes s₀ ∧
        ∀ e ∈ i :: between, e.op.Stays s₀ ∧ e.returned = false := by
  constructor
  · rintro ⟨before, i, between, hsplit, harm, htime, hall⟩
    obtain ⟨hsettled, hpushes⟩ := signal_eq_arm.mp harm
    refine ⟨before, i, between, hsplit, htime, hsettled, hpushes, ?_⟩
    have hcalls : ∀ e ∈ i :: between, e.op.test s₀ ≠ none := by
      intro e he hreset
      apply (hall e he).1
      simp only [exitReading, ExitCall.signal, hreset]
    have hlater : ∀ e ∈ between, i.time ≤ e.time := by
      rw [hsplit, List.map_append, List.map_cons] at hclock
      intro e he
      have hrest := (List.pairwise_append.mp hclock).2.1
      exact List.rel_of_pairwise_cons hrest (List.mem_map_of_mem he)
    intro e he
    refine ⟨stays_of_signal ?_ (hall e he).1, (hall e he).2⟩
    -- the grace period of the last reset was over when the push began
    have hlast := h.since before (i :: between) hsplit hcalls
    rw [hlast e he, ← hlast i (List.mem_cons_self ..)]
    rcases List.mem_cons.mp he with rfl | he
    · exact hsettled
    · exact Nat.le_trans hsettled (hlater e he)
  · rintro ⟨before, i, between, hsplit, htime, hsettled, hpushes, hall⟩
    refine ⟨before, i, between, hsplit, signal_eq_arm.mpr ⟨hsettled, hpushes⟩, htime, ?_⟩
    intro e he
    exact ⟨signal_ne_stop (hall e he).1, (hall e he).2⟩

end ExitRun

/-- The exit check returns `true` exactly when its history says that a push has timed out. -/
theorem checkExitEdge_iff_timedOut (config : ClientConfig) (clipboard : ClipboardManager)
    (now₁ now₂ : Instant) (ack : Message) (ops : List (ExitOp × Instant)) (x y dx dy : Int32)
    (now : Instant) (hclock : (ops.map Prod.snd ++ [now]).Pairwise (· ≤ ·)) :
    let client := Client.connected config clipboard now₁ now₂ ack
    let r := (ExitRun.start config clipboard now₁ now₂ ack).run ops
    (r.client.state.checkExitEdge ⟨now, now, now⟩ x y dx dy).1 = true ↔
      TimedOut client.state r.calls r.lastReset (.check x y dx dy) now := by
  intro client r
  cases hposition : client.state.position with
  | none =>
      -- without a position there is no edge to push at
      have hlost : r.client.state.position = none := ExitRun.run_no_position hposition ops
      rw [checkExitEdge_of_no_position hlost]
      refine ⟨nofun, ?_⟩
      rintro ⟨_, ⟨away, htest⟩, _, _⟩
      rw [ExitOp.test, hposition] at htest
      cases htest
  | some p =>
      have hbefore : (ops.map Prod.snd).Pairwise (· ≤ ·) := (List.pairwise_append.mp hclock).1
      have hstart := ExitRun.faithful_start config clipboard now₁ now₂ ack
      obtain ⟨hfaithful, htimes⟩ := hstart.run hposition ops hbefore
      have hcalls : (r.calls.map ExitCall.time).Pairwise (· ≤ ·) := htimes ▸ hbefore
      have hposition' : r.client.state.position = some p := hfaithful.position.trans hposition
      let e : ExitCall := ⟨.check x y dx dy, now, r.lastReset, false⟩
      rw [(checkExitEdge_timer hposition' now x y dx dy).1, hfaithful.signal_eq hposition x y dx dy false,
        hfaithful.timer.rings_iff (by decide) (e.signal client.state) now, signal_eq_arm]
      constructor
      · rintro ⟨⟨hsettled, hpushes⟩, t, hheld, hlong⟩
        obtain ⟨before, i, between, hsplit, rfl, hrest⟩ := (hfaithful.heldSince_iff hcalls t).mp hheld
        exact ⟨hsettled, hpushes, hpushes.stays, before, i, between, hsplit, hlong, hrest⟩
      · rintro ⟨hsettled, hpushes, _, before, i, between, hsplit, hlong, hrest⟩
        refine ⟨⟨hsettled, hpushes⟩, i.time, ?_, hlong⟩
        exact (hfaithful.heldSince_iff hcalls i.time).mpr ⟨before, i, between, hsplit, rfl, hrest⟩

/-- The laptop is given control, and pushed over its right edge once the grace period is over. -/
def keptPushing : List (ExitOp × Instant) :=
  [(.reset (Message.switchToClient 795 240).payload, Duration.fromMillis 1000),
    (.check 799 240 4 0, Duration.fromMillis 1100), (.check 799 240 9 0, Duration.fromMillis 1200),
    (.check 799 241 0 1, Duration.fromMillis 1300)]

theorem checkExitEdge_iff_timedOut_keptPushing :
    let r := (ExitRun.start laptop ClipboardManager.new 0 0 (Message.handshakeAck "left" 640 480)).run
      keptPushing
    let now := Duration.fromMillis 1500
    (r.client.state.checkExitEdge ⟨now, now, now⟩ 799 242 2 1).1 = true := by
  apply (checkExitEdge_iff_timedOut laptop ClipboardManager.new 0 0
    (Message.handshakeAck "left" 640 480) keptPushing 799 242 2 1 (Duration.fromMillis 1500)
    (by decide)).mpr
  refine ⟨by decide, ⟨false, rfl⟩, ⟨true, rfl⟩, ?_⟩
  refine ⟨_ :: _ :: [], _, _ :: [], rfl, by decide, by decide, ⟨false, rfl⟩, ?_⟩
  simp only [List.forall_mem_cons]
  exact ⟨⟨⟨true, rfl⟩, trivial⟩, ⟨⟨false, rfl⟩, trivial⟩, nofun⟩

end Bluecross
