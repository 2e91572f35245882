/-
# Bluecross.MotionConservation — no motion is lost or made up, however the messages are batched.

A client sums the motion of a batch, moves its tracked pointer by the sum and injects the sum; a batch
whose motion cancels does neither, and an axis that does not move is left out of the group. `Pointer`
is what the tracked pointer stands for: it is placed by each `SwitchToClient`, moved by what is really
injected on `REL_X` and `REL_Y`, and clamped to the screen after each such group, in exact integers.

Two things are kept by every batch that does not hand control back, and so by every sequence of them:
the injected motion adds up to the received motion, and the tracked pointer is the `Pointer`. Wherever
a batch is split, the sums are others and the clamping happens at other times, but the pointer and the
client see the same groups.
-/
import Bluecross.Lib.CheckedArith
import Bluecross.MotionOrder
import Bluecross.SessionDiscipline

namespace Bluecross

open Lib (FitsI32)

/-! ## The pointer of the client's screen -/

/-- What moves the pointer of a client: a switch places it, the mouse device moves it. -/
inductive PointerAct where
  | placed (x y : Int32)
  | injected (e : Emission)

/-- A group with an event on `REL_X` or `REL_Y`. -/
def Emission.moves (e : Emission) : Bool :=
  e.events.any fun ev => ev.eventType = .relative ∧ (ev.code = REL_X ∨ ev.code = REL_Y)

/-- A coordinate, clamped to the screen. -/
def onScreen (n : Int) (size : Int32) : Int := max 0 (min n (size.toInt - 1))

/-- Where the pointer of a client is. -/
@[ext]
structure Pointer where
  x : Int
  y : Int

namespace Pointer

/-- Where an act leaves the pointer. -/
def act (config : ClientConfig) (p : Pointer) : PointerAct → Pointer
  | .placed x y => ⟨x.toInt, y.toInt⟩
  | .injected e =>
      if e.moves then
        ⟨onScreen (p.x + e.displacement.1) config.screenWidth,
          onScreen (p.y + e.displacement.2) config.screenHeight⟩
      else p

/-- Where the pointer is after some acts. -/
def after (config : ClientConfig) (p : Pointer) (acts : List PointerAct) : Pointer :=
  acts.foldl (act config) p

theorem after_append {config : ClientConfig} (p : Pointer) (acts acts' : List PointerAct) :
    p.after config (acts ++ acts') = (p.after config acts).after config acts' :=
  List.foldl_append

/-- Groups that do not move it leave it where it is. -/
theorem after_still {config : ClientConfig} (p : Pointer) {log : List Emission}
    (h : ∀ e ∈ log, e.moves = false) : p.after config (log.map .injected) = p := by
  induction log with
  | nil => rfl
  | cons e log ih =>
      have hone : p.act config (.injected e) = p := by
        simp [act, h e (List.mem_cons_self ..)]
      rw [List.map_cons, after, List.foldl_cons, hone]
      exact ih fun e' he' => h e' (List.mem_cons_of_mem e he')

end Pointer

/-! ## What a client does to it -/

namespace Client

/-- The tracked pointer. -/
def pointer (c : Client) : Pointer := ⟨c.state.mouseX.toInt, c.state.mouseY.toInt⟩

/-- Where a `SwitchToClient` places the pointer. -/
def entryPoint (config : ClientConfig) (msg : Message) : Int32 × Int32 :=
  ((msg.payload.i64Or "entry_x" (config.screenWidth / 2).toInt64).toInt32,
    (msg.payload.i64Or "entry_y" (config.screenHeight / 2).toInt64).toInt32)

/-- The groups handed to the devices between two states of a client. -/
def newGroups (c c' : Client) : List PointerAct :=
  (c'.injector.emitted.drop c.injector.emitted.length).map .injected

/-- What a message does to the pointer, as it is applied. -/
def messageMoves (c : Client) (msg : Message) (now : Instant) : List PointerAct :=
  (if msg.isSwitch then
    [.placed (entryPoint c.state.config msg).1 (entryPoint c.state.config msg).2]
  else []) ++ c.newGroups (c.applyMessage msg now).1

/-- What messages in a row do to it. -/
def restMoves (c : Client) : List (Message × Instant) → List PointerAct
  | [] => []
  | m :: rest => c.messageMoves m.1 m.2 ++ (c.applyMessage m.1 m.2).1.restMoves rest

/-- What a batch does to it, its motion at the end. -/
def batchMoves (c : Client) (b : Batch) : List PointerAct :=
  c.restMoves (b.first :: b.rest) ++
    (c.applyBatch b).1.newGroups ((c.applyBatch b).1.useMotion b.exit (c.applyBatch b).2).1

/-- What a client that takes these batches in turn does to the pointer. -/
def moves (c : Client) : List Batch → List PointerAct
  | [] => []
  | b :: batches => c.batchMoves b ++ (c.handleBatch b).1.moves batches

end Client

/-- The sums that a batch makes stay in range: its motion, and the tracked pointer moved by it. -/
structure Batch.SumsFit (c : Client) (b : Batch) : Prop where
  dx : FitsI32 b.displacement.1
  dy : FitsI32 b.displacement.2
  x : FitsI32 ((c.applyBatch b).1.state.mouseX.toInt + b.displacement.1)
  y : FitsI32 ((c.applyBatch b).1.state.mouseY.toInt + b.displacement.2)

/-- No sum leaves the range in any of the batches. -/
def Client.SumsFit : Client → List Batch → Prop
  | _, [] => True
  | c, b :: batches => b.SumsFit c ∧ (c.handleBatch b).1.SumsFit batches

/-! ## Groups and the pointer -/

namespace Client

/-- Keys, buttons and scrolls do not move the pointer. -/
theorem groups_still (msg : Message) : ∀ e ∈ groups msg, e.moves = false := by
  unfold groups
  split
  · unfold InputInjector.injectMouseScroll InputInjector.emitRelative
    by_cases hdy : i32Field msg "dy" = 0 <;> by_cases hdx : i32Field msg "dx" = 0 <;>
      simp [hdx, hdy, InputInjector.emit, InputInjector.setup, InputInjector.new,
        InputInjector.sync, Emission.moves, REL_X, REL_Y, REL_WHEEL, REL_HWHEEL]
  · unfold Message.press
    split <;> simp [Emission.moves, InputInjector.sync]

/-- The motion of a batch moves the pointer by its sum, unless it is none. -/
theorem after_motionGroup (config : ClientConfig) (p : Pointer) (total : Int32 × Int32) :
    p.after config ((motionGroup total).map .injected) =
      if total = 0 then p
      else ⟨onScreen (p.x + total.1.toInt) config.screenWidth,
        onScreen (p.y + total.2.toInt) config.screenHeight⟩ := by
  obtain ⟨dx, dy⟩ := total
  unfold motionGroup InputInjector.injectMouseMove InputInjector.emitRelative
  by_cases hdy : dy = 0 <;> by_cases hdx : dx = 0 <;>
    simp [hdx, hdy, InputInjector.emit, InputInjector.setup, InputInjector.new,
      InputInjector.sync, Pointer.after, Pointer.act, Emission.moves, Emission.displacement, axisSum,
      REL_X, REL_Y, Prod.zero_eq_mk]

theorem newGroups_of_emitted {c c' : Client} {log : List Emission}
    (h : c'.injector.emitted = c.injector.emitted ++ log) :
    c.newGroups c' = log.map .injected := by
  rw [newGroups, h, List.drop_left]

/-! ## One message and one batch -/

/-- A message places the pointer where the client tracks it, or leaves both. -/
theorem pointer_message {c : Client} {msg : Message} (hready : c.injector.Ready)
    (hactive : c.state.active = true ∨ msg.msgType = .switchToClient) (now : Instant) :
    c.pointer.after c.state.config (c.messageMoves msg now) = (c.applyMessage msg now).1.pointer ∧
      (c.applyMessage msg now).1.state.config = c.state.config := by
  obtain ⟨hinjects, _⟩ := applyMessage_spec hready hactive now
  rw [messageMoves, newGroups_of_emitted hinjects.emitted, Pointer.after_append,
    Pointer.after_still _ (groups_still msg)]
  cases hswitch : msg.isSwitch with
  | true =>
      rw [c.applyMessage_of_isSwitch hswitch now]
      exact ⟨rfl, rfl⟩
  | false =>
      obtain ⟨hstate, _⟩ := c.applyMessage_other hswitch now
      rw [pointer, pointer, hstate]
      exact ⟨rfl, rfl⟩

theorem pointer_rest {c : Client} (hready : c.injector.Ready) (hactive : c.state.active = true)
    (total : Int32 × Int32) (rest : List (Message × Instant)) :
    c.pointer.after c.state.config (c.restMoves rest) = (c.applyRest total rest).1.pointer ∧
      (c.applyRest total rest).1.state.config = c.state.config := by
  induction rest generalizing c total with
  | nil => exact ⟨rfl, rfl⟩
  | cons m rest ih =>
      obtain ⟨hone, hconfig⟩ := pointer_message hready (Or.inl hactive) m.2
      obtain ⟨hinjects, _⟩ := applyMessage_spec hready (Or.inl hactive) m.2
      obtain ⟨hrest, hkept⟩ := ih hinjects.ready hinjects.active
        (total.1 + (c.applyMessage m.1 m.2).2.1, total.2 + (c.applyMessage m.1 m.2).2.2)
      rw [hconfig] at hrest hkept
      refine ⟨?_, hkept⟩
      rw [restMoves, Pointer.after_append, hone]
      exact hrest

theorem pointer_applyBatch {c : Client} {b : Batch} (hready : c.injector.Ready)
    (hactive : c.state.active = true ∨ b.first.1.msgType = .switchToClient) :
    c.pointer.after c.state.config (c.restMoves (b.first :: b.rest)) = (c.applyBatch b).1.pointer ∧
      (c.applyBatch b).1.state.config = c.state.config := by
  obtain ⟨hone, hconfig⟩ := pointer_message hready hactive b.first.2
  obtain ⟨hinjects, _⟩ := applyMessage_spec hready hactive b.first.2
  obtain ⟨hrest, hkept⟩ := pointer_rest hinjects.ready hinjects.active
    (c.applyMessage b.first.1 b.first.2).2 b.rest
  rw [hconfig] at hrest hkept
  refine ⟨?_, hkept⟩
  rw [restMoves, Pointer.after_append, hone]
  exact hrest

/-- The exit check does not touch the tracked pointer. -/
theorem checkExitEdge_pointer (clock : ExitClock) (s : ClientState) (x y dx dy : Int32) :
    let checked := (s.checkExitEdge clock x y dx dy).2
    checked.mouseX = s.mouseX ∧ checked.mouseY = s.mouseY ∧ checked.config = s.config := by
  unfold ClientState.checkExitEdge
  split
  · exact ⟨rfl, rfl, rfl⟩
  · split
    · exact ⟨rfl, rfl, rfl⟩
    · simp only
      split
      · split <;> split <;> exact ⟨rfl, rfl, rfl⟩
      · split <;> exact ⟨rfl, rfl, rfl⟩

/-- A coordinate moved by a sum that fits is the exact one, clamped. -/
theorem toInt_moved {x d size : Int32} (hsize : 0 < size) (hfit : FitsI32 (x.toInt + d.toInt)) :
    (clamp (x + d) 0 (size - 1)).toInt = onScreen (x.toInt + d.toInt) size := by
  rw [toInt_clamp hsize, Lib.toInt_add hfit, onScreen]

/-- The end of a batch that does not hand control back. -/
theorem pointer_useMotion {c : Client} (hready : c.injector.Ready) (hactive : c.state.active = true)
    (hwidth : 0 < c.state.config.screenWidth) (hheight : 0 < c.state.config.screenHeight)
    (clock : ExitClock) (total : Int32 × Int32) (hstays : (c.useMotion clock total).2 = false)
    (hx : FitsI32 (c.state.mouseX.toInt + total.1.toInt))
    (hy : FitsI32 (c.state.mouseY.toInt + total.2.toInt)) :
    c.pointer.after c.state.config (c.newGroups (c.useMotion clock total).1) =
        (c.useMotion clock total).1.pointer ∧
      (c.useMotion clock total).1.state.config = c.state.config := by
  have hinjects := useMotion_spec hready hactive clock total hstays
  rw [newGroups_of_emitted hinjects.emitted, after_motionGroup]
  unfold useMotion at hstays ⊢
  by_cases hmoved : total.1 ≠ 0 ∨ total.2 ≠ 0
  · have hsome : ¬ total = 0 := total_ne_zero_iff.mp hmoved
    obtain ⟨hkeptX, hkeptY, hconfig⟩ := checkExitEdge_pointer clock
      (c.movePointer total.1 total.2).state (c.movePointer total.1 total.2).state.mouseX
      (c.movePointer total.1 total.2).state.mouseY total.1 total.2
    simp only [hmoved, if_true] at hstays ⊢
    split at hstays
    · cases hstays
    · rename_i hexit
      rw [if_neg hexit, if_neg hsome]
      have hmovedX : (c.movePointer total.1 total.2).state.mouseX.toInt =
          onScreen (c.state.mouseX.toInt + total.1.toInt) c.state.config.screenWidth :=
        toInt_moved hwidth hx
      have hmovedY : (c.movePointer total.1 total.2).state.mouseY.toInt =
          onScreen (c.state.mouseY.toInt + total.2.toInt) c.state.config.screenHeight :=
        toInt_moved hheight hy
      rw [← hkeptX] at hmovedX
      rw [← hkeptY] at hmovedY
      exact ⟨Pointer.ext hmovedX.symm hmovedY.symm, hconfig⟩
  · have hnone : total = 0 := not_not.mp fun hne => hmoved (total_ne_zero_iff.mpr hne)
    rw [if_neg hmoved, if_pos hnone]
    exact ⟨rfl, rfl⟩

end Client

/-- What a batch sums up to, when its motion is in range. -/
theorem exact_moved {msgs : List Message}
    (hx : FitsI32 (msgs.map Message.displacement).sum.1)
    (hy : FitsI32 (msgs.map Message.displacement).sum.2) :
    exact (moved msgs) = (msgs.map Message.displacement).sum := by
  have hwrapped : ∀ msgs : List Message,
      exact (moved msgs) = ((msgs.map Message.displacement).sum.1.bmod (2 ^ 32),
        (msgs.map Message.displacement).sum.2.bmod (2 ^ 32)) := by
    intro msgs
    induction msgs with
    | nil => rfl
    | cons msg msgs ih =>
        have hdx := congrArg Prod.fst ih
        have hdy := congrArg Prod.snd ih
        simp only [exact] at hdx hdy
        rw [moved_cons, List.map_cons, List.sum_cons]
        refine Prod.ext ?_ ?_
        · simp only [exact, Prod.fst_add, Int32.toInt_add, hdx, Int.add_bmod_bmod]
          rfl
        · simp only [exact, Prod.snd_add, Int32.toInt_add, hdy, Int.add_bmod_bmod]
          rfl
  obtain ⟨hxlow, hxhigh⟩ := hx
  obtain ⟨hylow, hyhigh⟩ := hy
  rw [hwrapped, Int.bmod_eq_of_le (by omega) (by omega), Int.bmod_eq_of_le (by omega) (by omega)]

namespace Client

/-- A batch that does not hand control back leaves the tracked pointer where the pointer is. -/
theorem pointer_handleBatch {c : Client} {b : Batch} (hready : c.injector.Ready)
    (hactive : c.state.active = true ∨ b.first.1.msgType = .switchToClient)
    (hwidth : 0 < c.state.config.screenWidth) (hheight : 0 < c.state.config.screenHeight)
    (hstays : (c.handleBatch b).2 = false) (hfit : b.SumsFit c) :
    c.pointer.after c.state.config (c.batchMoves b) = (c.handleBatch b).1.pointer ∧
      (c.handleBatch b).1.state.config = c.state.config := by
  obtain ⟨hread, htotal⟩ := applyBatch_spec hready hactive
  obtain ⟨hpointer, hconfig⟩ := pointer_applyBatch hready hactive
  have hexact : exact (c.applyBatch b).2 = b.displacement := by
    rw [htotal]
    exact exact_moved hfit.dx hfit.dy
  have hdx : (c.applyBatch b).2.1.toInt = b.displacement.1 := congrArg Prod.fst hexact
  have hdy : (c.applyBatch b).2.2.toInt = b.displacement.2 := congrArg Prod.snd hexact
  obtain ⟨hend, hkept⟩ := pointer_useMotion (c := (c.applyBatch b).1) hread.ready hread.active
    (by rw [hconfig]; exact hwidth) (by rw [hconfig]; exact hheight) b.exit (c.applyBatch b).2 hstays
    (by rw [hdx]; exact hfit.x) (by rw [hdy]; exact hfit.y)
  rw [hconfig] at hend hkept
  refine ⟨?_, hkept⟩
  rw [batchMoves, Pointer.after_append, hpointer]
  exact hend

/-! ## Sequences of batches -/

/-- The batches so far, one after the other. -/
theorem pointer_handleBatches {c : Client} {batches : List Batch} (hready : c.injector.Ready)
    (hactive : c.state.active = true ∨
      ∀ b ∈ batches.head?, b.first.1.msgType = .switchToClient)
    (hwidth : 0 < c.state.config.screenWidth) (hheight : 0 < c.state.config.screenHeight)
    (hstays : c.Stays batches) (hfit : c.SumsFit batches) :
    c.pointer.after c.state.config (c.moves batches) = (c.handleBatches batches).pointer := by
  induction batches generalizing c with
  | nil => rfl
  | cons b batches ih =>
      have hfirst : c.state.active = true ∨ b.first.1.msgType = .switchToClient := by
        rcases hactive with hon | hhead
        · exact Or.inl hon
        · exact Or.inr (hhead b rfl)
      obtain ⟨hone, hconfig⟩ :=
        pointer_handleBatch hready hfirst hwidth hheight hstays.1 hfit.1
      have hinjects := handleBatch_spec hready hfirst hstays.1
      have hrest := ih hinjects.ready (Or.inl hinjects.active) (by rw [hconfig]; exact hwidth)
        (by rw [hconfig]; exact hheight) hstays.2 hfit.2
      rw [hconfig] at hrest
      rw [moves, Pointer.after_append, hone]
      exact hrest

theorem stays_prefix {c : Client} {batches coming : List Batch} (h : c.Stays (batches ++ coming)) :
    c.Stays batches := by
  induction batches generalizing c with
  | nil => trivial
  | cons b batches ih => exact ⟨h.1, ih h.2⟩

theorem sumsFit_prefix {c : Client} {batches coming : List Batch}
    (h : c.SumsFit (batches ++ coming)) : c.SumsFit batches := by
  induction batches generalizing c with
  | nil => trivial
  | cons b batches ih => exact ⟨h.1, ih h.2⟩

theorem displacement_of_sumsFit {c : Client} {batches : List Batch} (h : c.SumsFit batches) :
    ((batches.flatMap batchLog).map Emission.displacement).sum =
      ((batches.flatMap Batch.messages).map Message.displacement).sum := by
  induction batches generalizing c with
  | nil => rfl
  | cons b batches ih =>
      rw [List.flatMap_cons, List.flatMap_cons, List.map_append, List.map_append, List.sum_append,
        List.sum_append, ih h.2, displacement_batchLog, exact_moved h.1.dx h.1.dy]

end Client

/-- Motion is conserved under any batching: while no batch hands control back and no sum leaves the
range, what is injected on `REL_X` and `REL_Y` adds up to what was received, and after every batch the
tracked pointer is the pointer that the switches place and the injected groups move. -/
theorem motion_conserved (c : Client) (batches : List Batch) (hready : c.injector.Ready)
    (hactive : c.state.active = true ∨
      ∀ b ∈ batches.head?, b.first.1.msgType = .switchToClient)
    (hwidth : 0 < c.state.config.screenWidth) (hheight : 0 < c.state.config.screenHeight)
    (hstays : c.Stays batches) (hfit : c.SumsFit batches) :
    (((c.handleBatches batches).injector.emitted.drop c.injector.emitted.length).map
        Emission.displacement).sum =
      ((batches.flatMap Batch.messages).map Message.displacement).sum ∧
    ∀ done coming, batches = done ++ coming →
      c.pointer.after c.state.config (c.moves done) = (c.handleBatches done).pointer := by
  refine ⟨?_, ?_⟩
  · rw [Client.handleBatches_spec hready hactive hstays, List.drop_left]
    exact Client.displacement_of_sumsFit hfit
  · rintro done coming rfl
    refine Client.pointer_handleBatches hready ?_ hwidth hheight (Client.stays_prefix hstays)
      (Client.sumsFit_prefix hfit)
    rcases hactive with hon | hhead
    · exact Or.inl hon
    · refine Or.inr ?_
      intro b hb
      apply hhead
      rw [List.head?_append, hb]
      rfl

/-- The laptop is entered at its right edge. Motion that cancels is received with it, motion over the
edge alone, and motion back from it behind a key. -/
def overTheEdge : List Batch :=
  [⟨(Message.switchToClient 795 240, 0), [(Message.mouseMove 0 0 3 0, 0),
      (Message.mouseMove 0 0 (-3) 0, 0)], ⟨0, 0, 0⟩⟩,
    ⟨(Message.mouseMove 0 0 20 1, 0), [], ⟨0, 0, 0⟩⟩,
    ⟨(Message.keyEvent 30 1, 0), [(Message.mouseMove 0 0 (-7) 0, 0)], ⟨0, 0, 0⟩⟩]

theorem motion_conserved_overTheEdge :
    (((leftClient.handleBatches overTheEdge).injector.emitted.drop
        leftClient.injector.emitted.length).map Emission.displacement).sum = (13, 1) ∧
      leftClient.pointer.after laptop (leftClient.moves overTheEdge) = ⟨792, 241⟩ := by
  obtain ⟨htotal, hpointer⟩ := motion_conserved leftClient overTheEdge ⟨rfl, rfl⟩
    (Or.inr (by rintro b ⟨⟩; rfl)) (by decide) (by decide) ⟨rfl, rfl, rfl, trivial⟩
    ⟨⟨by decide, by decide, by decide, by decide⟩, ⟨by decide, by decide, by decide, by decide⟩,
      ⟨by decide, by decide, by decide, by decide⟩, trivial⟩
  refine ⟨htotal, ?_⟩
  exact hpointer overTheEdge [] rfl

end Bluecross
