/-
# Bluecross.InputCapture — from the devices of the server to its event loop.

`discoverDevices` reads `/dev/input`, keeps the nodes that look like a keyboard or a pointer and
sorts them by name. Every one of them gets a reader task, which turns the events of its device into
`CaptureEvent`s and sends them into one channel; a forwarding task takes them from there into the
queue of the event loop, where other tasks queue events too. Both queues are bounded and both senders
wait for room, so a slow loop makes the readers wait, and loses nothing.

`Pipeline` is that part of the program as a transition system. What is known of it is said device by
device (`traced`): what the loop handled of a device, what is under way, and what the reader has still
to read are together, in this order, what the device delivered.
-/
import Bluecross.InputInject
import Bluecross.Lib.Settling
import Bluecross.System
import Mathlib.Data.List.Dedup

namespace Bluecross

open Lib (LTS)

/-! ## Events of a device -/

/-- The event types of `evdev` that are looked at. -/
def EV_KEY : UInt16 := 1
def EV_REL : UInt16 := 2

/-- An event as a device delivers it, with its type as a number. -/
structure RawEvent where
  eventType : UInt16
  code : UInt16
  value : Int32
  deriving DecidableEq, Repr

/-- What a reader makes of an event; `none` where it goes on to the next. -/
def RawEvent.capture (ev : RawEvent) : Option CaptureEvent :=
  if ev.eventType = EV_KEY then
    if isMouseButton ev.code then some (.mouseButton ev.code ev.value)
    else some (.key ev.code ev.value)
  else if ev.eventType = EV_REL then
    if ev.code = REL_X then some (.mouseMove ev.value 0)
    else if ev.code = REL_Y then some (.mouseMove 0 ev.value)
    else if ev.code = REL_WHEEL then some (.mouseScroll 0 ev.value)
    else if ev.code = REL_HWHEEL then some (.mouseScroll ev.value 0)
    else none
  else none

/-! ## Discovery -/

/-- The key by which a keyboard is known. -/
def KEY_A : UInt16 := 30

/-- A file descriptor of an open device. -/
abbrev Fd := Int32

/-- What an opened node says of itself, and what `into_event_stream` makes of it: the descriptor of
the live stream. -/
structure DeviceNode where
  supportedKeys : Option (List UInt16)
  supportedRel : Option (List UInt16)
  stream : Except String Fd

/-- An entry of `/dev/input`; `device` is `none` where the node cannot be opened. -/
structure DirEntry where
  fileName : String
  device : Option DeviceNode

/-- What a device is taken for. -/
inductive DeviceKind where
  | keyboard
  | mouse
  deriving DecidableEq, Repr

/-- A device with the key A is a keyboard; one with the left button, or one that moves, a mouse. -/
def DeviceNode.kind (node : DeviceNode) : Option DeviceKind :=
  let byKeys : Option DeviceKind := match node.supportedKeys with
    | some keys =>
        if keys.contains KEY_A then some .keyboard
        else if keys.contains BTN_LEFT then some .mouse
        else none
    | none => none
  match byKeys with
  | some kind => some kind
  | none =>
      match node.supportedRel with
      | some rel => if rel.contains REL_X || rel.contains REL_Y then some .mouse else none
      | none => none

/-- The order of `sort_by_key` on the file names. -/
def DirEntry.le (a b : DirEntry) : Bool := decide (a.fileName ≤ b.fileName)

/-- The entry is named like an event device. -/
def DirEntry.isEvent (e : DirEntry) : Bool := "event".toList.isPrefixOf e.fileName.toList

/-- The nodes that are read. The directory is `none` where there is none; entries that cannot be read
are left out of it, and the others come in any order. -/
def discoverDevices (dir : Option (Except String (List DirEntry))) :
    Except String (List DeviceNode) :=
  match dir with
  | none => .error "/dev/input does not exist"
  | some (.error e) => .error e
  | some (.ok entries) =>
      .ok (((entries.filter DirEntry.isEvent).mergeSort DirEntry.le).filterMap fun e =>
        e.device.filter fun node => node.kind.isSome)

/-- The descriptors of the devices that a reader task is started for; they are the ones to grab. -/
def startCapture (dir : Option (Except String (List DirEntry))) : Except String (List Fd) :=
  (discoverDevices dir).map fun devices => devices.filterMap fun node => node.stream.toOption

/-- The order in which the directory is listed does not matter: its names are distinct. -/
theorem discoverDevices_perm {entries entries' : List DirEntry} (hperm : entries.Perm entries')
    (hnames : (entries.map DirEntry.fileName).Nodup) :
    discoverDevices (some (.ok entries)) = discoverDevices (some (.ok entries')) := by
  have hsorted : ∀ l : List DirEntry, (l.mergeSort DirEntry.le).Pairwise fun a b => a.le b = true := by
    apply List.pairwise_mergeSort
    · intro a b c hab hbc
      simp only [DirEntry.le, decide_eq_true_eq] at hab hbc ⊢
      exact String.le_trans hab hbc
    · intro a b
      simp only [DirEntry.le, Bool.or_eq_true, decide_eq_true_eq]
      exact String.le_total _ _
  have hsame : (entries.filter DirEntry.isEvent).mergeSort DirEntry.le
      = (entries'.filter DirEntry.isEvent).mergeSort DirEntry.le := by
    apply List.Perm.eq_of_pairwise _ (hsorted _) (hsorted _)
    · exact (List.mergeSort_perm ..).trans
        ((hperm.filter _).trans (List.mergeSort_perm ..).symm)
    · intro a b ha hb hab hba
      simp only [DirEntry.le, decide_eq_true_eq] at hab hba
      have hmem : ∀ {e : DirEntry} {l : List DirEntry},
          e ∈ (l.filter DirEntry.isEvent).mergeSort DirEntry.le → e ∈ l := by
        intro e l he
        exact List.mem_of_mem_filter ((List.mergeSort_perm ..).mem_iff.mp he)
      exact List.inj_on_of_nodup_map hnames (hmem ha) (hperm.mem_iff.mpr (hmem hb))
        (String.le_antisymm hab hba)
  simp only [discoverDevices, hsame]

/-! ## The tasks and their queues -/

/-- The depth of the queue between the readers and the forwarding task. -/
def CAPTURE_QUEUE : Nat := 2048

/-- What a reader task does. -/
inductive DeviceTask where
  | reading
  /-- `tx.send` waits for room. -/
  | sending (ev : CaptureEvent)
  /-- The device failed, or there never was a task. -/
  | ended

/-- A device and its reader: what was delivered and is not read yet, and what the task does. -/
structure DeviceReader where
  unread : List RawEvent
  task : DeviceTask

/-- What the task of a reader holds. -/
def DeviceReader.held (r : DeviceReader) : List CaptureEvent :=
  match r.task with
  | .sending c => [c]
  | _ => []

/-- What there is of a device on the side of its reader: what the task holds, then what it has yet
to read. -/
def DeviceReader.traced (r : DeviceReader) : List CaptureEvent :=
  r.held ++ r.unread.filterMap RawEvent.capture

/-- A captured event and the device it is from; the source has the event alone. -/
abbrev Tagged := Fd × CaptureEvent

/-- What is between the devices and the event loop. -/
structure Pipeline where
  readers : Fd → DeviceReader
  channel : List Tagged
  /-- What the forwarding task holds while it waits for room. -/
  forwarding : Option Tagged
  /-- The queue of the event loop; `none` stands for the event of another task. -/
  events : List (Option Tagged)
  /-- The captured events the loop has handled, the oldest first. -/
  handled : List Tagged

/-- A step of a device, of its reader, of the forwarding task, or of the event loop. -/
inductive CaptureStep where
  /-- A device delivers an event. -/
  | deliver (fd : Fd) (ev : RawEvent)
  | read (fd : Fd)
  /-- `next_event` fails. -/
  | fail (fd : Fd)
  | send (fd : Fd)
  | forward
  | forwarded
  /-- Another task queues an event for the loop. -/
  | other
  | handle

/-- What a step delivers on behalf of a device. -/
def CaptureStep.delivers (step : CaptureStep) (fd : Fd) : List RawEvent :=
  match step with
  | .deliver fd' ev => if fd' = fd then [ev] else []
  | _ => []

/-- What a device delivered in a run. -/
def delivered (fd : Fd) (steps : List CaptureStep) : List RawEvent :=
  steps.flatMap fun step => step.delivers fd

namespace Pipeline

/-- Another state for one reader. -/
def setReader (p : Pipeline) (fd : Fd) (r : DeviceReader) : Pipeline :=
  { p with readers := Function.update p.readers fd r }

/-- Nothing has been delivered, and these devices have a reader. -/
def start (fds : List Fd) : Pipeline where
  readers fd := ⟨[], if fd ∈ fds then .reading else .ended⟩
  channel := []
  forwarding := none
  events := []
  handled := []

/-- What a step makes of the pipeline. -/
def next (p : Pipeline) : CaptureStep → Option Pipeline
  | .deliver fd ev =>
      some (p.setReader fd { p.readers fd with unread := (p.readers fd).unread ++ [ev] })
  | .read fd =>
      match p.readers fd with
      | ⟨ev :: unread, .reading⟩ =>
          match ev.capture with
          | some c => some (p.setReader fd ⟨unread, .sending c⟩)
          | none => some (p.setReader fd ⟨unread, .reading⟩)
      | _ => none
  | .fail fd =>
      match p.readers fd with
      | ⟨unread, .reading⟩ => some (p.setReader fd ⟨unread, .ended⟩)
      | _ => none
  | .send fd =>
      match p.readers fd with
      | ⟨unread, .sending c⟩ =>
          if p.channel.length < CAPTURE_QUEUE then
            some { p.setReader fd ⟨unread, .reading⟩ with channel := p.channel ++ [(fd, c)] }
          else none
      | _ => none
  | .forward =>
      match p.forwarding, p.channel with
      | none, e :: channel => some { p with channel := channel, forwarding := some e }
      | _, _ => none
  | .forwarded =>
      match p.forwarding with
      | some e =>
          if p.events.length < EVENT_QUEUE then
            some { p with forwarding := none, events := p.events ++ [some e] }
          else none
      | none => none
  | .other =>
      if p.events.length < EVENT_QUEUE then some { p with events := p.events ++ [none] } else none
  | .handle =>
      match p.events with
      | e :: events => some { p with events := events, handled := p.handled ++ e.toList }
      | [] => none

/-- The tasks of a server that captures these devices. -/
def lts (fds : List Fd) : LTS Pipeline CaptureStep where
  init p := p = start fds
  next := next

/-- What each step does, and when it can be taken. -/
inductive Step (p : Pipeline) : CaptureStep → Pipeline → Prop
  | deliver (fd : Fd) (ev : RawEvent) :
      Step p (.deliver fd ev)
        (p.setReader fd { p.readers fd with unread := (p.readers fd).unread ++ [ev] })
  | read {fd : Fd} {ev : RawEvent} {c : CaptureEvent} {unread : List RawEvent} :
      p.readers fd = ⟨ev :: unread, .reading⟩ → ev.capture = some c →
        Step p (.read fd) (p.setReader fd ⟨unread, .sending c⟩)
  | skip {fd : Fd} {ev : RawEvent} {unread : List RawEvent} :
      p.readers fd = ⟨ev :: unread, .reading⟩ → ev.capture = none →
        Step p (.read fd) (p.setReader fd ⟨unread, .reading⟩)
  | fail {fd : Fd} {unread : List RawEvent} :
      p.readers fd = ⟨unread, .reading⟩ → Step p (.fail fd) (p.setReader fd ⟨unread, .ended⟩)
  | send {fd : Fd} {c : CaptureEvent} {unread : List RawEvent} :
      p.readers fd = ⟨unread, .sending c⟩ → p.channel.length < CAPTURE_QUEUE →
        Step p (.send fd)
          { p.setReader fd ⟨unread, .reading⟩ with channel := p.channel ++ [(fd, c)] }
  | forward {e : Tagged} {channel : List Tagged} :
      p.forwarding = none → p.channel = e :: channel →
        Step p .forward { p with channel := channel, forwarding := some e }
  | forwarded {e : Tagged} :
      p.forwarding = some e → p.events.length < EVENT_QUEUE →
        Step p .forwarded { p with forwarding := none, events := p.events ++ [some e] }
  | other :
      p.events.length < EVENT_QUEUE → Step p .other { p with events := p.events ++ [none] }
  | handle {e : Option Tagged} {events : List (Option Tagged)} :
      p.events = e :: events →
        Step p .handle { p with events := events, handled := p.handled ++ e.toList }

variable {p p' : Pipeline} {act : CaptureStep}

theorem step_of_next (h : p.next act = some p') : p.Step act p' := by
  unfold next at h
  split at h
  · cases h
    exact .deliver _ _
  · split at h
    · rename_i hreader
      split at h
      · rename_i hcapture
        cases h
        exact .read hreader hcapture
      · rename_i hcapture
        cases h
        exact .skip hreader hcapture
    · cases h
  · split at h
    · rename_i hreader
      cases h
      exact .fail hreader
    · cases h
  · split at h
    · rename_i hreader
      split at h
      · rename_i hroom
        cases h
        exact .send hreader hroom
      · cases h
    · cases h
  · split at h
    · rename_i hforwarding hchannel
      cases h
      exact .forward hforwarding hchannel
    · cases h
  · split at h
    · rename_i hforwarding
      split at h
      · rename_i hroom
        cases h
        exact .forwarded hforwarding hroom
      · cases h
    · cases h
  · split at h
    · rename_i hroom
      cases h
      exact .other hroom
    · cases h
  · split at h
    · rename_i hevents
      cases h
      exact .handle hevents
    · cases h

/-! ## Device by device -/

/-- The captured events of one device among these. -/
def ofDevice (fd : Fd) (entries : List Tagged) : List CaptureEvent :=
  (entries.filter fun e => e.1 = fd).map Prod.snd

@[simp]
theorem ofDevice_append (fd : Fd) (l₁ l₂ : List Tagged) :
    ofDevice fd (l₁ ++ l₂) = ofDevice fd l₁ ++ ofDevice fd l₂ := by
  simp [ofDevice]

/-- The captured events that have left their readers, the oldest first. -/
def path (p : Pipeline) : List Tagged :=
  p.handled ++ p.events.filterMap id ++ p.forwarding.toList ++ p.channel

/-- The captured events of a device, wherever they are, the oldest first. -/
def traced (p : Pipeline) (fd : Fd) : List CaptureEvent :=
  ofDevice fd p.path ++ (p.readers fd).traced

theorem traced_start (fds : List Fd) (fd : Fd) : (start fds).traced fd = [] := by
  show [] ++ DeviceReader.traced ⟨[], if fd ∈ fds then .reading else .ended⟩ = []
  split <;> rfl

theorem traced_setReader {fd : Fd} {r : DeviceReader} (more : List CaptureEvent)
    (h : r.traced = (p.readers fd).traced ++ more) (fd' : Fd) :
    (p.setReader fd r).traced fd' = p.traced fd' ++ if fd = fd' then more else [] := by
  show ofDevice fd' p.path ++ (Function.update p.readers fd r fd').traced = _
  by_cases heq : fd = fd'
  · subst heq
    simp [traced, h]
  · simp [traced, Function.update_of_ne (Ne.symm heq), heq]

/-- A step of a task moves what there is of a device, and changes nothing of it. -/
theorem Step.traced (h : p.Step act p') (fd : Fd) :
    p'.traced fd = p.traced fd ++ (act.delivers fd).filterMap RawEvent.capture := by
  have hkept : ∀ {fd' : Fd} {r : DeviceReader}, r.traced = (p.readers fd').traced →
      (p.setReader fd' r).traced fd = p.traced fd ++ [] := by
    intro fd' r hr
    rw [traced_setReader [] (by simpa using hr)]
    split <;> rfl
  have hpath : ∀ {q : Pipeline}, q.path = p.path → q.readers = p.readers →
      q.traced fd = p.traced fd ++ [] := by
    intro q hq hreaders
    simp [Pipeline.traced, hq, hreaders]
  cases h with
  | deliver fd' ev =>
      rw [traced_setReader ([ev].filterMap RawEvent.capture)]
      · simp only [CaptureStep.delivers]
        split <;> rfl
      · simp [DeviceReader.traced, DeviceReader.held]
  | read hreader hcapture =>
      apply hkept
      simp [hreader, DeviceReader.traced, DeviceReader.held, hcapture]
  | skip hreader hcapture =>
      apply hkept
      simp [hreader, DeviceReader.traced, DeviceReader.held, hcapture]
  | fail hreader =>
      apply hkept
      simp [hreader, DeviceReader.traced, DeviceReader.held]
  | @send fd' c unread hreader hroom =>
      -- the event goes from the reader of its own device to the end of the path
      show ofDevice fd (p.handled ++ p.events.filterMap id ++ p.forwarding.toList
        ++ (p.channel ++ [(fd', c)])) ++ (Function.update p.readers fd' ⟨unread, .reading⟩ fd).traced
          = _
      by_cases heq : fd' = fd
      · subst heq
        simp [Pipeline.traced, path, ofDevice, hreader, DeviceReader.traced, DeviceReader.held,
          CaptureStep.delivers]
      · simp [Pipeline.traced, path, ofDevice, Function.update_of_ne (Ne.symm heq), heq,
          CaptureStep.delivers]
  | forward hforwarding hchannel =>
      apply hpath
      · simp [path, hforwarding, hchannel]
      · rfl
  | forwarded hforwarding hroom =>
      apply hpath
      · simp [path, hforwarding]
      · rfl
  | other hroom =>
      apply hpath
      · simp [path]
      · rfl
  | @handle e events hevents =>
      apply hpath
      · rcases e with _ | e <;> simp [path, hevents]
      · rfl

/-- Along a run, what there is of a device grows by what the device delivers. -/
theorem traced_run {fds : List Fd} {G : Pipeline → CaptureStep → Prop} {steps : List CaptureStep}
    (h : LTS.Steps (lts fds) G p steps p') (fd : Fd) :
    p'.traced fd = p.traced fd ++ (delivered fd steps).filterMap RawEvent.capture := by
  induction h with
  | nil => simp [delivered]
  | @cons p q p' step steps _ hnext _ ih =>
      rw [ih, (step_of_next hnext).traced fd]
      simp [delivered]

/-! ## Bounds, and coming to rest -/

/-- The queues stay within their bounds, and only these devices have a reader. -/
structure Orderly (fds : List Fd) (p : Pipeline) : Prop where
  channel : p.channel.length ≤ CAPTURE_QUEUE
  events : p.events.length ≤ EVENT_QUEUE
  readers : ∀ fd, (p.readers fd).task ≠ .ended → fd ∈ fds

variable {fds : List Fd}

theorem orderly_start (fds : List Fd) : Orderly fds (start fds) := by
  refine ⟨Nat.zero_le _, Nat.zero_le _, ?_⟩
  intro fd hfd
  by_contra hmem
  exact hfd (if_neg hmem)

theorem Orderly.setReader (h : Orderly fds p) {fd : Fd} {r : DeviceReader}
    (hr : (p.readers fd).task = .ended → r.task = .ended) : Orderly fds (p.setReader fd r) := by
  refine ⟨h.channel, h.events, ?_⟩
  intro fd' hfd'
  by_cases heq : fd' = fd
  · subst heq
    rw [show ((p.setReader fd' r).readers fd') = r from Function.update_self ..] at hfd'
    exact h.readers fd' fun hended => hfd' (hr hended)
  · rw [show ((p.setReader fd r).readers fd') = p.readers fd' from Function.update_of_ne heq ..]
      at hfd'
    exact h.readers fd' hfd'

theorem Orderly.step (h : Orderly fds p) (hstep : p.Step act p') : Orderly fds p' := by
  obtain ⟨hchannel, hevents, hreaders⟩ := id h
  cases hstep with
  | deliver => exact h.setReader id
  | read hreader => exact h.setReader (by simp [hreader])
  | skip hreader => exact h.setReader (by simp [hreader])
  | fail hreader => exact h.setReader (by simp)
  | @send fd c unread hreader hroom =>
      have hset : Orderly fds (p.setReader fd ⟨unread, .reading⟩) := h.setReader (by simp [hreader])
      refine ⟨?_, hset.events, hset.readers⟩
      show (p.channel ++ [(fd, c)]).length ≤ CAPTURE_QUEUE
      simp only [List.length_append, List.length_cons, List.length_nil]
      omega
  | forward hforwarding hqueue =>
      refine ⟨?_, hevents, hreaders⟩
      simp only [hqueue, List.length_cons] at hchannel
      exact Nat.le_of_succ_le hchannel
  | @forwarded e hforwarding hroom =>
      refine ⟨hchannel, ?_, hreaders⟩
      show (p.events ++ [some e]).length ≤ EVENT_QUEUE
      simp only [List.length_append, List.length_cons, List.length_nil]
      omega
  | other hroom =>
      refine ⟨hchannel, ?_, hreaders⟩
      show (p.events ++ [none]).length ≤ EVENT_QUEUE
      simp only [List.length_append, List.length_cons, List.length_nil]
      omega
  | handle hqueue =>
      refine ⟨hchannel, ?_, hreaders⟩
      simp only [hqueue, List.length_cons] at hevents
      exact Nat.le_of_succ_le hevents

theorem orderly_run {G : Pipeline → CaptureStep → Prop} {steps : List CaptureStep}
    (h : LTS.Steps (lts fds) G p steps p') (hp : Orderly fds p) : Orderly fds p' :=
  h.invariant (I := Orderly fds) (fun _ _ _ hq _ hnext => hq.step (step_of_next hnext)) hp

/-- What the tasks do by themselves. -/
def Internal (_ : Pipeline) : CaptureStep → Prop
  | .read _ | .send _ | .forward | .forwarded | .handle => True
  | _ => False

/-- The tasks deliver nothing by themselves. -/
theorem delivered_internal {steps : List CaptureStep}
    (h : LTS.Steps (lts fds) Internal p steps p') (fd : Fd) : delivered fd steps = [] := by
  induction h with
  | nil => rfl
  | @cons p q p' step steps hinternal _ _ ih =>
      rcases step <;> first | exact absurd hinternal id | exact ih

/-- The steps that are left to take for what a reader has. -/
def cost (r : DeviceReader) : Nat := 5 * r.unread.length + 4 * r.held.length

/-- The steps that are left until everything delivered is handled. -/
def rank (fds : List Fd) (p : Pipeline) : Nat :=
  (fds.dedup.map fun fd => cost (p.readers fd)).sum
    + (3 * p.channel.length + 2 * p.forwarding.toList.length + p.events.length)

theorem cost_reading (unread : List RawEvent) : cost ⟨unread, .reading⟩ = 5 * unread.length := by
  simp [cost, DeviceReader.held]

theorem cost_sending (unread : List RawEvent) (c : CaptureEvent) :
    cost ⟨unread, .sending c⟩ = 5 * unread.length + 4 := by
  simp [cost, DeviceReader.held]

theorem cost_setReader {fd : Fd} (hfd : fd ∈ fds) (r : DeviceReader) :
    (fds.dedup.map fun i => cost ((p.setReader fd r).readers i)).sum + cost (p.readers fd)
      = (fds.dedup.map fun i => cost (p.readers i)).sum + cost r :=
  Lib.sum_update cost p.readers (List.nodup_dedup fds) (List.mem_dedup.mpr hfd) r

theorem internal_lowers (fds : List Fd) :
    LTS.Lowers (lts fds) Internal (Orderly fds) (rank fds) := by
  refine ⟨fun p step p' hp _ hnext => hp.step (step_of_next hnext), ?_⟩
  intro p step p' hp hinternal hnext
  have hfd : ∀ {fd : Fd} {unread : List RawEvent} {task : DeviceTask},
      p.readers fd = ⟨unread, task⟩ → task ≠ .ended → fd ∈ fds := by
    intro fd unread task hreader htask
    exact hp.readers fd (by rwa [hreader])
  have hstep := step_of_next hnext
  cases hstep with
  | deliver => exact absurd hinternal id
  | fail => exact absurd hinternal id
  | other => exact absurd hinternal id
  | @read fd ev c unread hreader hcapture =>
      have hsum := cost_setReader (p := p) (hfd hreader (by simp)) ⟨unread, .sending c⟩
      rw [hreader, cost_reading, cost_sending, List.length_cons] at hsum
      show _ + (3 * p.channel.length + 2 * p.forwarding.toList.length + p.events.length) < rank fds p
      unfold rank
      omega
  | @skip fd ev unread hreader hcapture =>
      have hsum := cost_setReader (p := p) (hfd hreader (by simp)) ⟨unread, .reading⟩
      rw [hreader, cost_reading, cost_reading, List.length_cons] at hsum
      show _ + (3 * p.channel.length + 2 * p.forwarding.toList.length + p.events.length) < rank fds p
      unfold rank
      omega
  | @send fd c unread hreader hroom =>
      have hsum := cost_setReader (p := p) (hfd hreader (by simp)) ⟨unread, .reading⟩
      rw [hreader, cost_reading, cost_sending] at hsum
      show (fds.dedup.map fun i => cost ((p.setReader fd ⟨unread, .reading⟩).readers i)).sum
        + (3 * (p.channel ++ [(fd, c)]).length + 2 * p.forwarding.toList.length + p.events.length)
          < rank fds p
      unfold rank
      rw [List.length_append, List.length_singleton]
      omega
  | forward hforwarding hchannel =>
      simp only [rank, hforwarding, hchannel, List.length_cons, Option.toList_none,
        Option.toList_some, List.length_nil]
      omega
  | forwarded hforwarding hroom =>
      simp only [rank, hforwarding, List.length_append, List.length_cons, Option.toList_none,
        Option.toList_some, List.length_nil]
      omega
  | handle hevents =>
      simp only [rank, hevents, List.length_cons]
      omega

/-- Where no task can go on, everything has been handled but what failed readers left behind. -/
theorem handled_of_settled (h : LTS.Settled (lts fds) Internal p) (fd : Fd)
    (htask : (p.readers fd).task ≠ .ended) : ofDevice fd p.handled = p.traced fd := by
  have hevents : p.events = [] := by
    rcases hqueue : p.events with _ | ⟨e, events⟩
    · rfl
    · refine absurd ?_ (h .handle { p with events := events, handled := p.handled ++ e.toList } trivial)
      simp [lts, next, hqueue]
  have hforwarding : p.forwarding = none := by
    rcases hheld : p.forwarding with _ | e
    · rfl
    · refine absurd ?_
        (h .forwarded { p with forwarding := none, events := p.events ++ [some e] } trivial)
      simp [lts, next, hheld, hevents, EVENT_QUEUE]
  have hchannel : p.channel = [] := by
    rcases hqueue : p.channel with _ | ⟨e, channel⟩
    · rfl
    · refine absurd ?_ (h .forward { p with channel := channel, forwarding := some e } trivial)
      simp [lts, next, hqueue, hforwarding]
  have hreader : (p.readers fd).traced = [] := by
    rcases hr : p.readers fd with ⟨unread, _ | c | _⟩
    · rcases unread with _ | ⟨ev, unread⟩
      · rfl
      · rcases hcapture : ev.capture with _ | c
        · refine absurd ?_ (h (.read fd) (p.setReader fd ⟨unread, .reading⟩) trivial)
          simp [lts, next, hr, hcapture]
        · refine absurd ?_ (h (.read fd) (p.setReader fd ⟨unread, .sending c⟩) trivial)
          simp [lts, next, hr, hcapture]
    · refine absurd ?_ (h (.send fd) { p.setReader fd ⟨unread, .reading⟩ with
        channel := p.channel ++ [(fd, c)] } trivial)
      simp [lts, next, hr, hchannel, CAPTURE_QUEUE]
    · rw [hr] at htask
      exact absurd rfl htask
  simp [Pipeline.traced, path, hreader, hevents, hforwarding, hchannel]

/-- However the tasks are scheduled, the events of a device reach the event loop in the order in which
the device delivered them, each recognised one once and nothing else: what was handled of the device,
what is under way, and what is unread are together what it delivered. The queues stay within their
bounds, and without new events the tasks come to rest with everything handled but what a failed reader
left. -/
theorem captured_in_order (fds : List Fd) {steps : List CaptureStep} {p : Pipeline}
    (h : LTS.Steps (lts fds) LTS.anyStep (start fds) steps p) :
    (∀ fd, ofDevice fd p.path ++ (p.readers fd).traced
      = (delivered fd steps).filterMap RawEvent.capture) ∧
    p.channel.length ≤ CAPTURE_QUEUE ∧ p.events.length ≤ EVENT_QUEUE ∧
    (∃ bound, ∀ more q, LTS.Steps (lts fds) Internal p more q → more.length ≤ bound) ∧
    ∀ more q, LTS.Steps (lts fds) Internal p more q → LTS.Settled (lts fds) Internal q →
      ∀ fd, (q.readers fd).task ≠ .ended →
        ofDevice fd q.handled = (delivered fd steps).filterMap RawEvent.capture := by
  have horderly := orderly_run h (orderly_start fds)
  have htraced : ∀ fd, p.traced fd = (delivered fd steps).filterMap RawEvent.capture := by
    intro fd
    rw [traced_run h fd, traced_start]
    exact List.nil_append _
  refine ⟨htraced, horderly.channel, horderly.events, ⟨p.rank fds, ?_⟩, ?_⟩
  · intro more q hmore
    have hlength := (internal_lowers fds).length_le hmore horderly
    omega
  · intro more q hmore hsettled fd htask
    rw [handled_of_settled hsettled fd htask, traced_run hmore fd, delivered_internal hmore fd,
      htraced fd]
    exact List.append_nil _

/-! ## A keyboard and a mouse -/

/-- The directory of a desk: a keyboard, a mouse, a power button that is neither, and a node that cannot
be opened. -/
def deskEntries : List DirEntry :=
  [⟨"event0", some ⟨some [116], none, .ok 5⟩⟩, ⟨"event3", some ⟨some [KEY_A], none, .ok 3⟩⟩,
    ⟨"event4", some ⟨some [BTN_LEFT], some [REL_X, REL_Y], .ok 4⟩⟩, ⟨"mice", none⟩]

/-- Its two devices are captured, in whatever order the directory is listed. -/
theorem startCapture_desk {entries : List DirEntry} (h : entries.Perm deskEntries) :
    startCapture (some (.ok entries)) = .ok [3, 4] := by
  have hnames : (entries.map DirEntry.fileName).Nodup :=
    (h.map DirEntry.fileName).nodup_iff.mpr (by decide)
  have hsorted : (deskEntries.filter DirEntry.isEvent).mergeSort DirEntry.le
      = deskEntries.filter DirEntry.isEvent :=
    List.mergeSort_of_pairwise (by decide)
  rw [startCapture, discoverDevices_perm h hnames, discoverDevices, hsorted]
  rfl

/-- A key goes down while the mouse moves, and up again: the first press waits in the channel, the
motion and the second one are still unread, and a synchronisation was read over. -/
def keyAndMotion : List CaptureStep :=
  [.deliver 3 ⟨EV_KEY, KEY_A, 1⟩, .deliver 4 ⟨EV_REL, REL_X, 5⟩, .deliver 3 ⟨0, 0, 0⟩, .read 3,
    .send 3, .read 3, .deliver 3 ⟨EV_KEY, KEY_A, 0⟩]

/-- The mouse is read first, and everything is handled. -/
def broughtToRest : List CaptureStep :=
  [.read 4, .send 4, .read 3, .send 3, .forward, .forwarded, .handle, .forward, .forwarded, .handle,
    .forward, .forwarded, .handle]

/-- The pipeline in the middle of its work. -/
def midway : Pipeline := ((lts [3, 4]).exec (start [3, 4]) keyAndMotion).getD (start [3, 4])

/-- The pipeline when everything has been handled. -/
def atRest : Pipeline := ((lts [3, 4]).exec midway broughtToRest).getD midway

theorem steps_midway : LTS.Steps (lts [3, 4]) LTS.anyStep (start [3, 4]) keyAndMotion midway :=
  LTS.steps_of_exec rfl (LTS.guarded_anyStep _ _)

theorem steps_atRest : LTS.Steps (lts [3, 4]) Internal midway broughtToRest atRest :=
  LTS.steps_of_exec rfl (LTS.guarded_of_forall (by simp [broughtToRest, Internal]) midway)

/-- Nothing is left to do. -/
theorem settled_atRest : LTS.Settled (lts [3, 4]) Internal atRest := by
  have horderly := orderly_run steps_atRest (orderly_run steps_midway (orderly_start [3, 4]))
  -- a reader that is not over is one of the two, and both have read everything
  have hread : ∀ fd, (atRest.readers fd).task ≠ .ended → atRest.readers fd = ⟨[], .reading⟩ := by
    intro fd hfd
    rcases List.mem_pair.mp (horderly.readers fd hfd) with rfl | rfl
    · rfl
    · rfl
  intro act q hinternal hnext
  have hstep := step_of_next hnext
  cases hstep with
  | deliver => exact hinternal
  | fail => exact hinternal
  | other => exact hinternal
  | @read fd _ _ _ hreader =>
      have hidle := hread fd (by rw [hreader]; simp)
      rw [hreader] at hidle
      cases hidle
  | @skip fd _ _ hreader =>
      have hidle := hread fd (by rw [hreader]; simp)
      rw [hreader] at hidle
      cases hidle
  | @send fd _ _ hreader =>
      have hidle := hread fd (by rw [hreader]; simp)
      rw [hreader] at hidle
      cases hidle
  | forward _ hchannel => cases hchannel
  | forwarded hforwarding => cases hforwarding
  | handle hevents => cases hevents

/-- Midway everything is on its way, device by device, and in the end it was handled. -/
theorem captured_in_order_keyAndMotion :
    startCapture (some (.ok deskEntries.reverse)) = .ok [3, 4] ∧
    midway.channel = [(3, .key KEY_A 1)] ∧
    ofDevice 3 midway.path ++ (midway.readers 3).traced = [.key KEY_A 1, .key KEY_A 0] ∧
    ofDevice 4 midway.path ++ (midway.readers 4).traced = [.mouseMove 5 0] ∧
    midway.channel.length ≤ CAPTURE_QUEUE ∧
    atRest.handled = [(3, .key KEY_A 1), (4, .mouseMove 5 0), (3, .key KEY_A 0)] ∧
    ofDevice 3 atRest.handled = [.key KEY_A 1, .key KEY_A 0] := by
  obtain ⟨htraced, hchannel, _, _, hrest⟩ := captured_in_order [3, 4] steps_midway
  refine ⟨startCapture_desk deskEntries.reverse_perm, rfl, htraced 3, htraced 4, hchannel, rfl, ?_⟩
  exact hrest broughtToRest atRest steps_atRest settled_atRest 3 nofun

end Pipeline

end Bluecross
