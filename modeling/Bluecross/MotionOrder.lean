/-
# Bluecross.MotionOrder — when motion stays ordered against keys and buttons on a client.

The server flushes pending motion ahead of keys and buttons. A client injects keys and buttons while
it reads a batch and the batch's motion at its end, so motion that is received ahead of a key in the
same batch is injected behind it. What the order should be is said with `stamps`: every key or button
of the received messages with the motion received before it (`received`), and every key or button of
the injected groups with the motion injected before it (`injected`).

`motion_ordered_iff` says exactly when the two agree: when, at every key and button, the motion ahead
of it in its own batch adds up to zero. Sums are exact; a batch whose motion leaves the range of `i32`
is injected with the wrapped sum, and what is lost to that in earlier batches (`lost`) is part of the
condition.
-/
import Bluecross.ClientControl
import Bluecross.Lib.Stamps

namespace Bluecross

open Lib (stamps stamps_append stamps_of_weightless stamps_eq_const_iff length_stamps)

/-! ## Injected groups -/

/-- The sum of the values of one axis in a group. -/
def axisSum (axis : UInt16) (events : List InputEvent) : Int :=
  ((events.filter fun e => e.eventType = .relative ∧ e.code = axis).map fun e => e.value.toInt).sum

namespace Emission

/-- The displacement of the pointer by a group. -/
def displacement (e : Emission) : Int × Int := (axisSum REL_X e.events, axisSum REL_Y e.events)

/-- A group that changes a key or a button. -/
def press (e : Emission) : Option Emission :=
  if e.events.any fun ev => ev.eventType = .key then some e else none

end Emission

/-- The keys and buttons of a log of groups, each with the displacement injected before it. -/
def injected (sofar : Int × Int) (log : List Emission) : List (Emission × (Int × Int)) :=
  stamps Emission.press Emission.displacement sofar log

/-! ## Received messages -/

/-- A displacement as exact integers. -/
def exact (d : Int32 × Int32) : Int × Int := (d.1.toInt, d.2.toInt)

namespace Message

/-- The group that a key or a button is injected as. -/
def press (msg : Message) : Option Emission :=
  match msg.msgType with
  | .keyEvent =>
      some ⟨.keyboard, [⟨.key, Client.u16Field msg "code", Client.i32Field msg "value"⟩,
        InputInjector.sync]⟩
  | .mouseButton =>
      some ⟨.mouse, [⟨.key, Client.u16Field msg "button", Client.i32Field msg "value"⟩,
        InputInjector.sync]⟩
  | _ => none

/-- The motion of a message, in exact integers. -/
def displacement (msg : Message) : Int × Int := exact msg.motion

end Message

/-- The keys and buttons of the messages, each with the motion received before it. -/
def received (sofar : Int × Int) (msgs : List Message) : List (Emission × (Int × Int)) :=
  stamps Message.press Message.displacement sofar msgs

/-- When each key or button is injected, the displacement injected so far is the motion of exactly the
messages that precede it. -/
def MotionOrdered (msgs : List Message) (log : List Emission) : Prop :=
  injected 0 log = received 0 msgs

/-- The motion of a batch, in exact integers. -/
def Batch.displacement (b : Batch) : Int × Int := (b.messages.map Message.displacement).sum

/-- What a batch's motion loses when its sum wraps. Zero for every sum within the range of `i32`. -/
def Batch.lost (b : Batch) : Int × Int := b.displacement - exact (moved b.messages)

/-- At every key and button, the motion ahead of it in its own batch is zero, up to what wrapped sums
of earlier batches have lost. -/
def Prompt (batches : List Batch) : Prop :=
  ∀ done b coming, batches = done ++ b :: coming → ∀ before msg after,
    b.messages = before ++ msg :: after → msg.isPress →
      (done.map Batch.lost).sum + (before.map Message.displacement).sum = 0

/-! ## Applying messages -/

namespace Client

/-- The groups that a message is injected as while its batch is read. -/
def groups (msg : Message) : List Emission :=
  match msg.msgType with
  | .mouseScroll =>
      (InputInjector.new.setup.injectMouseScroll (i32Field msg "dx") (i32Field msg "dy")).emitted
  | _ => msg.press.toList

/-- The client after a message or a batch: active, its devices in place, these groups injected. -/
structure Injects (c c' : Client) (log : List Emission) : Prop where
  active : c'.state.active = true
  ready : c'.injector.Ready
  emitted : c'.injector.emitted = c.injector.emitted ++ log

theorem Injects.trans {c c' c'' : Client} {log log' : List Emission} (h : Injects c c' log)
    (h' : Injects c' c'' log') : Injects c c'' (log ++ log') := by
  refine ⟨h'.active, h'.ready, ?_⟩
  rw [h'.emitted, h.emitted, List.append_assoc]

end Client

namespace InputInjector

/-- With the devices in place, a group is always handed over. -/
theorem emit_of_ready {i : InputInjector} (h : i.Ready) (device : Device)
    (events : List InputEvent) :
    i.emit device events = { i with emitted := i.emitted ++ [⟨device, events⟩] } := by
  obtain ⟨hkeyboard, hmouse⟩ := h
  unfold emit
  cases device with
  | keyboard => rw [if_pos hkeyboard]
  | mouse => rw [if_pos hmouse]

/-- What a relative group adds to the log does not depend on the log. -/
theorem emitRelative_of_ready {i : InputInjector} (h : i.Ready) (axes : List (UInt16 × Int32)) :
    i.emitRelative axes =
      { i with emitted := i.emitted ++ (new.setup.emitRelative axes).emitted } := by
  have hnew : new.setup.Ready := ⟨rfl, rfl⟩
  unfold emitRelative
  simp only
  split
  · exact (by rw [show new.setup.emitted = [] from rfl, List.append_nil])
  · rw [emit_of_ready h, emit_of_ready hnew]
    rfl

end InputInjector

/-! ## What one message and one batch inject -/

namespace Message

theorem press_isSome (msg : Message) : msg.press.isSome ↔ msg.isPress := by
  unfold press isPress
  split
  · rename_i htype
    simp [htype]
  · rename_i htype
    simp [htype]
  · rename_i hkey hbutton
    apply iff_of_false (by simp)
    rintro (h | h)
    · exact hkey h
    · exact hbutton h

end Message

namespace Client

/-- The group that the motion of a batch is injected as: none for no motion. -/
def motionGroup (total : Int32 × Int32) : List Emission :=
  (InputInjector.new.setup.injectMouseMove total.1 total.2).emitted

theorem motionGroup_zero : motionGroup 0 = [] := by decide

/-- The scrolls of a message neither move the pointer nor change a key. -/
theorem scroll_weightless (dx dy : Int32) :
    ∀ e ∈ (InputInjector.new.setup.injectMouseScroll dx dy).emitted,
      e.displacement = 0 ∧ e.press = none := by
  unfold InputInjector.injectMouseScroll InputInjector.emitRelative
  by_cases hdy : dy = 0 <;> by_cases hdx : dx = 0 <;>
    simp [hdx, hdy, InputInjector.emit, InputInjector.setup, InputInjector.new,
      InputInjector.sync, Emission.displacement, Emission.press, axisSum, REL_X, REL_Y, REL_WHEEL,
      REL_HWHEEL]

theorem press_press {msg : Message} {e : Emission} (h : msg.press = some e) :
    e.displacement = 0 ∧ e.press = some e := by
  unfold Message.press at h
  split at h
  · rw [← Option.some.inj h]
    exact ⟨rfl, rfl⟩
  · rw [← Option.some.inj h]
    exact ⟨rfl, rfl⟩
  · cases h

/-- While a batch is read nothing moves the pointer, and what is pressed is what was received. -/
theorem groups_spec (msg : Message) :
    (∀ e ∈ groups msg, e.displacement = 0) ∧
      (groups msg).filterMap Emission.press = msg.press.toList := by
  unfold groups
  split
  · rename_i htype
    have hnone : msg.press = none := by simp [Message.press, htype]
    have hscroll := scroll_weightless (i32Field msg "dx") (i32Field msg "dy")
    refine ⟨fun e he => (hscroll e he).1, ?_⟩
    rw [hnone]
    exact List.filterMap_eq_nil_iff.mpr fun e he => (hscroll e he).2
  · rcases hpress : msg.press with _ | e
    · exact ⟨nofun, rfl⟩
    · obtain ⟨hzero, hself⟩ := press_press hpress
      refine ⟨?_, ?_⟩
      · intro e' he'
        rw [Option.toList_some, List.mem_singleton] at he'
        rw [he']
        exact hzero
      · rw [Option.toList_some, List.filterMap_cons_some hself]
        rfl

/-- The motion of a batch is injected as it is summed, and presses nothing. -/
theorem motionGroup_spec (total : Int32 × Int32) :
    ((motionGroup total).map Emission.displacement).sum = exact total ∧
      (motionGroup total).filterMap Emission.press = [] := by
  obtain ⟨dx, dy⟩ := total
  unfold motionGroup InputInjector.injectMouseMove InputInjector.emitRelative
  by_cases hdy : dy = 0 <;> by_cases hdx : dx = 0 <;>
    simp [hdx, hdy, InputInjector.emit, InputInjector.setup, InputInjector.new,
      InputInjector.sync, Emission.displacement, Emission.press, axisSum, REL_X, REL_Y, exact,
      Prod.zero_eq_mk]

/-- One message, received by an active client or making it one. -/
theorem applyMessage_spec {c : Client} {msg : Message} (hready : c.injector.Ready)
    (hactive : c.state.active = true ∨ msg.msgType = .switchToClient) (now : Instant) :
    Injects c (c.applyMessage msg now).1 (groups msg) ∧
      (c.applyMessage msg now).2 = msg.motion := by
  have hsame : ∀ {c' : Client}, c'.state.active = true → c'.injector = c.injector →
      Injects c c' [] := by
    intro c' hactive' hinjector
    refine ⟨hactive', ?_, ?_⟩
    · rw [hinjector]
      exact hready
    · rw [hinjector, List.append_nil]
  by_cases hswitch : msg.msgType = .switchToClient
  · have hgroups : groups msg = [] := by simp [groups, Message.press, hswitch]
    have hmotion : msg.motion = 0 := by simp [Message.motion, hswitch]
    rw [hgroups, hmotion]
    unfold applyMessage
    rw [hswitch]
    exact ⟨hsame rfl rfl, rfl⟩
  · have hon : c.state.active = true := hactive.resolve_right hswitch
    unfold applyMessage
    rcases htype : msg.msgType <;>
      simp only [htype, hon, not_true_eq_false, if_false, groups, Message.press, Message.motion,
        reduceCtorEq, Option.toList_none, Option.toList_some, if_true]
    case switchToClient => exact absurd htype hswitch
    case clipboardData =>
      refine ⟨hsame ?_ ?_, rfl⟩
      · unfold applyClipboard
        split <;> exact hon
      · unfold applyClipboard
        split <;> rfl
    case mouseMove => exact ⟨hsame hon rfl, trivial⟩
    case keyEvent =>
      refine ⟨⟨hon, ?_, ?_⟩, rfl⟩
      · rw [InputInjector.injectKey, InputInjector.emit_of_ready hready]
        exact hready
      · rw [InputInjector.injectKey, InputInjector.emit_of_ready hready]
    case mouseButton =>
      refine ⟨⟨hon, ?_, ?_⟩, rfl⟩
      · rw [InputInjector.injectMouseButton, InputInjector.emit_of_ready hready]
        exact hready
      · rw [InputInjector.injectMouseButton, InputInjector.emit_of_ready hready]
    case mouseScroll =>
      refine ⟨⟨hon, ?_, ?_⟩, rfl⟩
      · rw [InputInjector.injectMouseScroll, InputInjector.emitRelative_of_ready hready]
        exact hready
      · rw [InputInjector.injectMouseScroll, InputInjector.emitRelative_of_ready hready]
        rfl
    all_goals exact ⟨hsame hon rfl, rfl⟩

/-- The rest of a batch. -/
theorem applyRest_spec {c : Client} (hready : c.injector.Ready) (hactive : c.state.active = true)
    (total : Int32 × Int32) (rest : List (Message × Instant)) :
    Injects c (c.applyRest total rest).1 ((rest.map Prod.fst).flatMap groups) ∧
      (c.applyRest total rest).2 = total + moved (rest.map Prod.fst) := by
  induction rest generalizing c total with
  | nil =>
      refine ⟨⟨hactive, hready, (List.append_nil _).symm⟩, ?_⟩
      exact (add_zero total).symm
  | cons m rest ih =>
      obtain ⟨hone, hmotion⟩ := applyMessage_spec hready (Or.inl hactive) m.2
      obtain ⟨hrest, htotal⟩ := ih hone.ready hone.active
        (total.1 + (c.applyMessage m.1 m.2).2.1, total.2 + (c.applyMessage m.1 m.2).2.2)
      refine ⟨hone.trans hrest, ?_⟩
      rw [List.map_cons, moved_cons, ← add_assoc, ← hmotion]
      exact htotal

theorem applyBatch_spec {c : Client} {b : Batch} (hready : c.injector.Ready)
    (hactive : c.state.active = true ∨ b.first.1.msgType = .switchToClient) :
    Injects c (c.applyBatch b).1 (b.messages.flatMap groups) ∧
      (c.applyBatch b).2 = moved b.messages := by
  obtain ⟨hone, hmotion⟩ := applyMessage_spec hready hactive b.first.2
  obtain ⟨hrest, htotal⟩ := applyRest_spec hone.ready hone.active
    (c.applyMessage b.first.1 b.first.2).2 b.rest
  refine ⟨hone.trans hrest, htotal.trans ?_⟩
  rw [hmotion]
  rfl

/-- The motion of a batch is used unless it is none. -/
theorem total_ne_zero_iff {total : Int32 × Int32} : total.1 ≠ 0 ∨ total.2 ≠ 0 ↔ total ≠ 0 := by
  rw [Ne.eq_def total, Prod.ext_iff, not_and_or]
  rfl

/-- The end of a batch that does not hand control back. -/
theorem useMotion_spec {c : Client} (hready : c.injector.Ready) (hactive : c.state.active = true)
    (clock : ExitClock) (total : Int32 × Int32) (hstays : (c.useMotion clock total).2 = false) :
    Injects c (c.useMotion clock total).1 (motionGroup total) := by
  unfold useMotion at hstays ⊢
  split
  · rename_i hmoved
    simp only [hmoved, if_true] at hstays ⊢
    split at hstays
    · cases hstays
    · rename_i hexit
      have hmouse : (c.movePointer total.1 total.2).injector.injectMouseMove total.1 total.2
          = { c.injector with emitted := c.injector.emitted ++ motionGroup total } :=
        InputInjector.emitRelative_of_ready hready _
      rw [if_neg hexit, hmouse]
      refine ⟨?_, hready, rfl⟩
      show (ClientState.checkExitEdge ..).2.active = true
      rw [checkExitEdge_active]
      exact hactive
  · rename_i hstill
    -- without motion the end of the batch does nothing
    have hzero : total = 0 := not_not.mp fun hne => hstill (total_ne_zero_iff.mpr hne)
    rw [hzero, motionGroup_zero]
    exact ⟨hactive, hready, (List.append_nil _).symm⟩

/-- The groups a batch is injected as: keys, buttons and scrolls while it is read, motion at its
end. -/
def batchLog (b : Batch) : List Emission :=
  b.messages.flatMap groups ++ motionGroup (moved b.messages)

theorem handleBatch_spec {c : Client} {b : Batch} (hready : c.injector.Ready)
    (hactive : c.state.active = true ∨ b.first.1.msgType = .switchToClient)
    (hstays : (c.handleBatch b).2 = false) : Injects c (c.handleBatch b).1 (batchLog b) := by
  obtain ⟨hread, htotal⟩ := applyBatch_spec hready hactive
  have hused := useMotion_spec hread.ready hread.active b.exit (c.applyBatch b).2 hstays
  rw [htotal] at hused
  have hall := hread.trans hused
  rw [← htotal] at hall
  unfold batchLog
  rw [← htotal]
  exact hall

/-! ## Sequences of batches -/

/-- The client after several batches. -/
def handleBatches (c : Client) (batches : List Batch) : Client :=
  batches.foldl (fun c b => (c.handleBatch b).1) c

/-- `check_exit_edge` does not return true in any of the batches. -/
def Stays : Client → List Batch → Prop
  | _, [] => True
  | c, b :: batches => (c.handleBatch b).2 = false ∧ Stays (c.handleBatch b).1 batches

theorem handleBatches_spec {c : Client} {batches : List Batch} (hready : c.injector.Ready)
    (hactive : c.state.active = true ∨
      ∀ b ∈ batches.head?, b.first.1.msgType = .switchToClient)
    (hstays : c.Stays batches) :
    (c.handleBatches batches).injector.emitted
      = c.injector.emitted ++ batches.flatMap batchLog := by
  induction batches generalizing c with
  | nil => exact (List.append_nil _).symm
  | cons b batches ih =>
      have hfirst : c.state.active = true ∨ b.first.1.msgType = .switchToClient := by
        rcases hactive with hon | hhead
        · exact Or.inl hon
        · exact Or.inr (hhead b rfl)
      have hone := handleBatch_spec hready hfirst hstays.1
      have hrest := ih hone.ready (Or.inl hone.active) hstays.2
      show ((c.handleBatch b).1.handleBatches batches).injector.emitted = _
      rw [hrest, hone.emitted, List.flatMap_cons, List.append_assoc]

end Client

/-! ## Comparing the two orders -/

/-- Every key and button of a batch is injected before any of its motion. -/
theorem injected_batchLog (sofar : Int × Int) (b : Batch) :
    injected sofar (Client.batchLog b) = (b.messages.filterMap Message.press).map (·, sofar) := by
  -- reading a batch moves nothing, so every key and button meets the same displacement
  have hread : ∀ e ∈ b.messages.flatMap Client.groups, e.displacement = 0 := by
    intro e he
    obtain ⟨msg, _, hmsg⟩ := List.mem_flatMap.mp he
    exact (Client.groups_spec msg).1 e hmsg
  have hpress : (b.messages.flatMap Client.groups).filterMap Emission.press
      = b.messages.filterMap Message.press := by
    rw [List.filterMap_flatMap]
    induction b.messages with
    | nil => rfl
    | cons msg msgs ih =>
        rw [List.flatMap_cons, ih, (Client.groups_spec msg).2]
        rcases hmsg : msg.press with _ | e
        · rw [List.filterMap_cons_none hmsg]
          rfl
        · rw [List.filterMap_cons_some hmsg]
          rfl
  have hend : injected (sofar + ((b.messages.flatMap Client.groups).map Emission.displacement).sum)
      (Client.motionGroup (moved b.messages)) = [] := by
    apply List.eq_nil_of_length_eq_zero
    unfold injected
    rw [length_stamps, (Client.motionGroup_spec _).2]
    rfl
  unfold injected at hend ⊢
  rw [Client.batchLog, stamps_append, hend, List.append_nil, stamps_of_weightless sofar hread,
    hpress]

/-- What a batch moves the pointer by. -/
theorem displacement_batchLog (b : Batch) :
    ((Client.batchLog b).map Emission.displacement).sum = exact (moved b.messages) := by
  have hread : ((b.messages.flatMap Client.groups).map Emission.displacement).sum = 0 := by
    apply List.sum_eq_zero
    intro d hd
    obtain ⟨e, he, rfl⟩ := List.mem_map.mp hd
    obtain ⟨msg, _, hmsg⟩ := List.mem_flatMap.mp he
    exact (Client.groups_spec msg).1 e hmsg
  rw [Client.batchLog, List.map_append, List.sum_append, hread, zero_add,
    (Client.motionGroup_spec _).1]

/-- `Prompt`, with some motion held back at the start. -/
def PromptFrom (held : Int × Int) (batches : List Batch) : Prop :=
  ∀ done b coming, batches = done ++ b :: coming → ∀ before msg after,
    b.messages = before ++ msg :: after → msg.isPress →
      held + (done.map Batch.lost).sum + (before.map Message.displacement).sum = 0

theorem promptFrom_cons (held : Int × Int) (b : Batch) (batches : List Batch) :
    PromptFrom held (b :: batches) ↔
      (∀ before msg after, b.messages = before ++ msg :: after → msg.isPress →
        held + (before.map Message.displacement).sum = 0) ∧
      PromptFrom (held + b.lost) batches := by
  constructor
  · intro h
    refine ⟨?_, ?_⟩
    · intro before msg after hmsgs hpress
      have h₀ := h [] b batches rfl before msg after hmsgs hpress
      rw [List.map_nil, List.sum_nil, add_zero] at h₀
      exact h₀
    · intro done b' coming hbatches before msg after hmsgs hpress
      have h₁ := h (b :: done) b' coming (by rw [hbatches, List.cons_append]) before msg after
        hmsgs hpress
      rw [List.map_cons, List.sum_cons, ← add_assoc] at h₁
      exact h₁
  · rintro ⟨hfirst, hrest⟩ done b' coming hbatches before msg after hmsgs hpress
    cases done with
    | nil =>
        obtain ⟨rfl, rfl⟩ := List.cons.inj hbatches
        rw [List.map_nil, List.sum_nil, add_zero]
        exact hfirst before msg after hmsgs hpress
    | cons d done =>
        obtain ⟨rfl, htail⟩ := List.cons.inj hbatches
        rw [List.map_cons, List.sum_cons, ← add_assoc]
        exact hrest done b' coming htail before msg after hmsgs hpress

/-- The comparison, by induction on the batches: `inj` is the displacement injected so far, `rec` the
motion received so far. -/
theorem injected_eq_received_iff (inj rec : Int × Int) (batches : List Batch) :
    injected inj (batches.flatMap Client.batchLog) = received rec (batches.flatMap Batch.messages) ↔
      PromptFrom (rec - inj) batches := by
  induction batches generalizing inj rec with
  | nil =>
      apply iff_of_true rfl
      intro done b coming h
      have hlen := congrArg List.length h
      rw [List.length_append, List.length_cons, List.length_nil] at hlen
      omega
  | cons b batches ih =>
      have hinj : injected inj ((b :: batches).flatMap Client.batchLog)
          = (b.messages.filterMap Message.press).map (·, inj) ++
            injected (inj + exact (moved b.messages)) (batches.flatMap Client.batchLog) := by
        rw [← injected_batchLog, ← displacement_batchLog]
        exact stamps_append ..
      have hrec : received rec ((b :: batches).flatMap Batch.messages)
          = received rec b.messages ++
            received (rec + b.displacement) (batches.flatMap Batch.messages) := stamps_append ..
      have hlen : ((b.messages.filterMap Message.press).map (·, inj)).length
          = (received rec b.messages).length := by
        unfold received
        rw [List.length_map, length_stamps]
      have hsplit : (b.messages.filterMap Message.press).map (·, inj) = received rec b.messages ↔
          ∀ before msg after, b.messages = before ++ msg :: after → msg.isPress →
            rec - inj + (before.map Message.displacement).sum = 0 := by
        rw [eq_comm, received, stamps_eq_const_iff]
        simp only [Message.press_isSome, sub_add_eq_add_sub, sub_eq_zero]
      have hheld : rec + b.displacement - (inj + exact (moved b.messages))
          = rec - inj + b.lost := by
        rw [Batch.lost, add_sub_add_comm]
      -- the two orders agree when they agree on this batch, whose parts are equally long, and after it
      rw [hinj, hrec, promptFrom_cons, ← hsplit, ← hheld, ← ih]
      constructor
      · intro h
        exact List.append_inj h hlen
      · rintro ⟨hfirst, hrest⟩
        rw [hfirst, hrest]

theorem prompt_iff (batches : List Batch) : Prompt batches ↔ PromptFrom 0 batches := by
  simp only [Prompt, PromptFrom, zero_add]

/-- What a client injects after a `SwitchToClient`, while it keeps control, is ordered exactly when
every key and button is received without motion ahead of it in its own batch. -/
theorem motion_ordered_iff (c : Client) (hready : c.injector.Ready) (switch : Message)
    (hswitch : switch.msgType = .switchToClient) (seq : List Message) (batches : List Batch)
    (hsplit : batches.flatMap Batch.messages = switch :: seq) (hstays : c.Stays batches) :
    MotionOrdered seq
        ((c.handleBatches batches).injector.emitted.drop c.injector.emitted.length) ↔
      Prompt batches := by
  -- the first message of the first batch is the switch
  have hhead : ∀ b ∈ batches.head?, b.first.1.msgType = .switchToClient := by
    intro b hb
    obtain ⟨tail, rfl⟩ := List.head?_eq_some_iff.mp hb
    rw [List.flatMap_cons, Batch.messages, List.cons_append] at hsplit
    rw [(List.cons.inj hsplit).1]
    exact hswitch
  have hlog := Client.handleBatches_spec hready (Or.inr hhead) hstays
  have hseq : received 0 (switch :: seq) = received 0 seq := by
    have hpress : switch.press = none := by simp [Message.press, hswitch]
    have hstill : switch.displacement = 0 := by
      simp [Message.displacement, Message.motion, hswitch, exact, Prod.zero_eq_mk]
    rw [received, stamps, hpress, hstill, add_zero]
    rfl
  rw [hlog, List.drop_left, MotionOrdered, ← hseq, ← hsplit, injected_eq_received_iff, prompt_iff,
    sub_zero]

/-! ## A key behind motion in one batch -/

/-- A client to the left of the server, connected and not yet active. -/
def leftClient : Client :=
  Client.connected laptop ClipboardManager.new 0 0 (Message.handshakeAck "left" 640 480)

/-- Motion and then a key. -/
def moveThenKey : List Message := [Message.mouseMove 0 0 5 0, Message.keyEvent 30 1]

/-- The switch is received alone, the motion and the key together. -/
def oneBatch : List Batch :=
  [⟨(Message.switchToClient 700 240, 0), [], ⟨0, 0, 0⟩⟩,
    ⟨(Message.mouseMove 0 0 5 0, 0), [(Message.keyEvent 30 1, 0)], ⟨0, 0, 0⟩⟩]

/-- The key of `oneBatch` is injected before the motion it was received behind. -/
theorem motion_not_ordered :
    ¬ ∀ (c : Client) (switch : Message) (seq : List Message) (batches : List Batch),
      c.injector.Ready → switch.msgType = .switchToClient →
      (∀ msg ∈ seq, msg.isPress ∨ msg.msgType = .mouseMove) →
      batches.flatMap Batch.messages = switch :: seq → c.Stays batches →
      MotionOrdered seq
        ((c.handleBatches batches).injector.emitted.drop c.injector.emitted.length) := by
  intro h
  have hkinds : ∀ msg ∈ moveThenKey, msg.isPress ∨ msg.msgType = .mouseMove := by
    intro msg hmsg
    rcases List.mem_cons.mp hmsg with rfl | hlast
    · exact Or.inr rfl
    · rw [List.mem_singleton.mp hlast]
      exact Or.inl (Or.inl rfl)
  have hordered := h leftClient (Message.switchToClient 700 240) moveThenKey oneBatch ⟨rfl, rfl⟩ rfl
    hkinds rfl ⟨rfl, rfl, trivial⟩
  have hx : some (0 : Int) = some 5 :=
    congrArg (fun moments => moments.head?.map fun moment => moment.2.1) hordered
  cases hx

theorem motion_ordered_iff_oneBatch :
    MotionOrdered moveThenKey
        ((leftClient.handleBatches oneBatch).injector.emitted.drop
          leftClient.injector.emitted.length) ↔ Prompt oneBatch :=
  motion_ordered_iff leftClient ⟨rfl, rfl⟩ (Message.switchToClient 700 240) rfl moveThenKey oneBatch
    rfl ⟨rfl, rfl, trivial⟩

end Bluecross
