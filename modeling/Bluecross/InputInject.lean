/-
# Bluecross.InputInject — the virtual devices of a client.

The injector owns two `uinput` devices, a keyboard and a mouse, and hands each of them groups of
events that end in a `SYNCHRONIZATION`. What the model keeps is the log of those groups, oldest first:
`emit` may fail, but the source ignores its result, so the log is what was handed over. A device that
is absent (before `setup`, after `close`) is handed nothing.
-/
import Bluecross.Machine

namespace Bluecross

/-- The types of event that are injected. -/
inductive EventType where
  | synchronization
  | key
  | relative
  deriving DecidableEq, Repr

/-- `evdev::InputEvent` as it is built for injection. -/
structure InputEvent where
  eventType : EventType
  code : UInt16
  value : Int32
  deriving DecidableEq, Repr

/-- The axes of a mouse. -/
def REL_X : UInt16 := 0
def REL_Y : UInt16 := 1
def REL_HWHEEL : UInt16 := 6
def REL_WHEEL : UInt16 := 8

/-- The two devices of a client. -/
inductive Device where
  | keyboard
  | mouse
  deriving DecidableEq, Repr

/-- One group of events handed to a device. -/
structure Emission where
  device : Device
  events : List InputEvent
  deriving DecidableEq, Repr

/-! ## What the devices are built with -/

/-- The buttons of a mouse. -/
def BTN_LEFT : UInt16 := 0x110
def BTN_RIGHT : UInt16 := 0x111
def BTN_MIDDLE : UInt16 := 0x112
def BTN_SIDE : UInt16 := 0x113
def BTN_EXTRA : UInt16 := 0x114

/-- The five buttons that belong to a mouse. -/
def isMouseButton (code : UInt16) : Bool :=
  code == BTN_LEFT || code == BTN_RIGHT || code == BTN_MIDDLE || code == BTN_SIDE
    || code == BTN_EXTRA

namespace Device

/-- The keys of `with_keys`: the codes of `0..0x2ff` on the keyboard, without the buttons, and the
buttons on the mouse. -/
def keys : Device → List UInt16
  | .keyboard => ((List.range 0x2ff).map UInt16.ofNat).filter fun code => ! isMouseButton code
  | .mouse => [BTN_LEFT, BTN_RIGHT, BTN_MIDDLE, BTN_SIDE, BTN_EXTRA]

/-- The axes of `with_relative_axes`. -/
def relAxes : Device → List UInt16
  | .keyboard => []
  | .mouse => [REL_X, REL_Y, REL_WHEEL, REL_HWHEEL]

/-- The kernel passes on what a device was built for, and drops the rest. -/
def supports (device : Device) (ev : InputEvent) : Bool :=
  match ev.eventType with
  | .synchronization => true
  | .key => device.keys.contains ev.code
  | .relative => device.relAxes.contains ev.code

@[simp]
theorem mem_keys_keyboard (code : UInt16) :
    code ∈ keyboard.keys ↔ code < 0x2ff ∧ isMouseButton code = false := by
  simp only [keys, List.mem_filter, List.mem_map, List.mem_range, Bool.not_eq_true']
  apply and_congr_left'
  constructor
  · rintro ⟨n, hn, rfl⟩
    rw [UInt16.lt_iff_toNat_lt, UInt16.toNat_ofNat']
    show n % 2 ^ 16 < 767
    omega
  · intro h
    exact ⟨code.toNat, h, UInt16.ofNat_toNat⟩

@[simp]
theorem mem_keys_mouse (code : UInt16) : code ∈ mouse.keys ↔ isMouseButton code = true := by
  simp [keys, isMouseButton, or_assoc]

end Device

/-- Which devices are there, and what they were handed. -/
structure InputInjector where
  keyboard : Bool
  mouse : Bool
  emitted : List Emission

namespace InputInjector

/-- Before `setup` there is no device. -/
def new : InputInjector where
  keyboard := false
  mouse := false
  emitted := []

/-- Both devices are built; an error in either is the error of the whole client. -/
def setup (i : InputInjector) : InputInjector :=
  { i with keyboard := true, mouse := true }

/-- The end of a group. -/
def sync : InputEvent := ⟨.synchronization, 0, 0⟩

/-- Hand a group to a device, if the device is there. -/
def emit (i : InputInjector) (device : Device) (events : List InputEvent) : InputInjector :=
  let present := match device with
    | .keyboard => i.keyboard
    | .mouse => i.mouse
  if present then { i with emitted := i.emitted ++ [⟨device, events⟩] } else i

/-- A group of relative events; axes that do not move are left out, and so is an empty group. -/
def emitRelative (i : InputInjector) (axes : List (UInt16 × Int32)) : InputInjector :=
  let events := (axes.filter fun a => a.2 ≠ 0).map fun a => ⟨.relative, a.1, a.2⟩
  if events.isEmpty then i else i.emit .mouse (events ++ [sync])

/-- A key goes down, up, or repeats. -/
def injectKey (i : InputInjector) (code : UInt16) (value : Int32) : InputInjector :=
  i.emit .keyboard [⟨.key, code, value⟩, sync]

/-- The pointer moves. -/
def injectMouseMove (i : InputInjector) (dx dy : Int32) : InputInjector :=
  i.emitRelative [(REL_X, dx), (REL_Y, dy)]

/-- A button goes down or up. -/
def injectMouseButton (i : InputInjector) (button : UInt16) (value : Int32) : InputInjector :=
  i.emit .mouse [⟨.key, button, value⟩, sync]

/-- The wheel turns; its vertical axis comes first. -/
def injectMouseScroll (i : InputInjector) (dx dy : Int32) : InputInjector :=
  i.emitRelative [(REL_WHEEL, dy), (REL_HWHEEL, dx)]

/-- The devices are dropped. -/
def close (i : InputInjector) : InputInjector :=
  { i with keyboard := false, mouse := false }

/-- Both devices are there, as they are between `setup` and `close`. -/
def Ready (i : InputInjector) : Prop := i.keyboard = true ∧ i.mouse = true

end InputInjector

end Bluecross
