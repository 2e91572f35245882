/-
# Bluecross.ClipboardSync — when the clipboards of all machines agree.

Nothing says which of two clipboard values is newer. Two that cross are each applied last where the
other was copied, and nothing repairs that (`crossed_copies_differ`).

What holds instead is the law of the hub register. A net refines one: `history` is the register along
a run, and `Refines` relates the two by what can be seen of each machine (`View`). So in every state
at rest every machine holds the value that the server handled last, but for the machine it was copied
on, which does if no other value was applied there since (`latest_held`).
-/
import Bluecross.ClipboardNet
import Bluecross.Lib.HubRegister

namespace Bluecross

open Lib (LTS HubRegister Replica)

namespace ClipboardNet

variable {ι : Type} {name : ι → String} {s s' : ClipboardNet ι} {r : HubRegister (Option ι) String}

/-! ## What is seen of a machine -/

/-- The value a clipboard message carries. -/
def textOf (msg : Message) : String := ((msg.payload.get "content").bind Value.asStr).getD ""

@[simp]
theorem textOf_clipboardData (value : String) : textOf (Message.clipboardData value) = value := rfl

/-- The value an event brings from a machine. -/
def valueFrom (name : ι → String) (n : Option ι) : ServerEvent ι → Option String
  | .clipboardChanged value => if n = none then some value else none
  | .clientMessage m msg => if n.map name = some m then some (textOf msg) else none
  | _ => none

/-- What a machine holds, and the values that are under way from it and to it. -/
structure View where
  held : String
  seen : String
  changes : List String
  way : List String
  inbox : List String

/-- The values on their way from a client to the server's reader. -/
def sentUp (s : ClipboardNet ι) : Option ι → List String
  | none => []
  | some i => (s.up i).map textOf

/-- What a machine of the network shows of itself. -/
def view (name : ι → String) (s : ClipboardNet ι) (n : Option ι) : View where
  held := (s.clipboard n).system
  seen := (s.clipboard n).lastContent
  changes := s.copies n
  way := s.events.filterMap (valueFrom name n) ++ s.sentUp n ++ s.reported n
  inbox :=
    match n with
    | none => []
    | some i => (s.down i).map textOf

/-- What a replica of the register shows of itself. -/
def viewOf (r : Replica String) : View :=
  ⟨r.held, r.seen, r.changes.map Prod.fst, r.way.map Prod.fst, r.inbox⟩

/-- The message carries a value that `set` applies. -/
def IsNews (msg : Message) : Prop := ∃ value, value ≠ "" ∧ msg = Message.clipboardData value

/-- Nothing but values is under way, and none is empty. -/
structure Carried (name : ι → String) (s : ClipboardNet ι) : Prop where
  copies : ∀ n, ∀ value ∈ s.copies n, value ≠ ""
  reported : ∀ n, ∀ value ∈ s.reported n, value ≠ ""
  up : ∀ i, ∀ msg ∈ s.up i, IsNews msg
  down : ∀ i, ∀ msg ∈ s.down i, IsNews msg
  events : ∀ e ∈ s.events, ∃ n value, value ≠ "" ∧ e = event name n value

/-- The network is a register whose replicas are its machines. -/
structure Refines (name : ι → String) (s : ClipboardNet ι)
    (r : HubRegister (Option ι) String) : Prop where
  connected : s.Connected name
  carried : s.Carried name
  view : ∀ n, viewOf (r.replica n) = s.view name n

theorem Carried.push (h : s.Carried name) (n : Option ι) {value : String} (hvalue : value ≠ "") :
    ({ s with events := s.events ++ [event name n value] } : ClipboardNet ι).Carried name := by
  refine ⟨h.copies, h.reported, h.up, h.down, ?_⟩
  intro e he
  rcases List.mem_append.mp he with hold | hlast
  · exact h.events e hold
  · exact ⟨n, value, hvalue, List.mem_singleton.mp hlast⟩

/-- A step that only moves values along the way of one machine. -/
theorem Refines.move (h : Refines name s r) (hconnected : s'.Connected name)
    (hcarried : s'.Carried name) (hview : ∀ m, s'.view name m = s.view name m) :
    Refines name s' r := by
  refine ⟨hconnected, hcarried, ?_⟩
  intro m
  rw [hview m]
  exact h.view m

/-- A quiet net is at rest in the register. -/
theorem Refines.quiet (h : Refines name s r) (hquiet : s.Quiet) (n : Option ι) :
    (r.replica n).Quiet := by
  have hview := h.view n
  have hup : s.sentUp n = [] := by
    cases n with
    | none => rfl
    | some i => exact congrArg (List.map textOf) (hquiet.up i)
  refine ⟨?_, ?_, ?_⟩
  · have hchanges : (r.replica n).changes.map Prod.fst = s.copies n := congrArg View.changes hview
    rw [hquiet.copies n] at hchanges
    exact List.map_eq_nil_iff.mp hchanges
  · have hway : (r.replica n).way.map Prod.fst =
        s.events.filterMap (valueFrom name n) ++ s.sentUp n ++ s.reported n :=
      congrArg View.way hview
    rw [hquiet.events, hup, hquiet.reported n] at hway
    exact List.map_eq_nil_iff.mp hway
  · have hinbox : (r.replica n).inbox = (s.view name n).inbox := congrArg View.inbox hview
    rw [hinbox]
    cases n with
    | none => rfl
    | some i => exact congrArg (List.map textOf) (hquiet.down i)

variable [DecidableEq ι]

/-! ## The history of a run -/

/-- The step of the hub register that a step is, if it is one. -/
def registerLabel (s : ClipboardNet ι) : Label ι → Option (HubRegister.Label (Option ι) String)
  | .copy n value => some (.change n value)
  | .report n => some (.report n)
  | .serve _ =>
      match s.events with
      | .clipboardChanged _ :: _ => some (.process none)
      | .clientMessage m _ :: _ =>
          (s.server.clients.lookup m).map fun client => .process (some client.tx)
      | _ => none
  | .deliver i _ => some (.deliver (some i))
  | _ => none

/-- The step of the register that a step of the network is; most are none. -/
def registerStep (s : ClipboardNet ι) (l : Label ι) (r : HubRegister (Option ι) String) :
    HubRegister (Option ι) String :=
  ((s.registerLabel l).bind (HubRegister.next none r)).getD r

/-- The register of machines at rest. -/
def register (s : ClipboardNet ι) : HubRegister (Option ι) String where
  replica n := ⟨(s.clipboard n).system, (s.clipboard n).lastContent, [], [], [], false⟩
  latest := none

/-- The hub register along a run: it knows what the server handled last and where that was copied. -/
def history (name : ι → String) (s : ClipboardNet ι) (ls : List (Label ι)) :
    HubRegister (Option ι) String :=
  (lts name).record registerStep s ls s.register

/-! ## One step -/

theorem valueFrom_event (hname : Function.Injective name) (n m : Option ι) (value : String) :
    valueFrom name n (event name m value) = if n = m then some value else none := by
  cases m with
  | none => rfl
  | some i =>
      show (if n.map name = some (name i) then some value else none) = _
      have hiff : n.map name = some (name i) ↔ n = some i := by
        constructor
        · intro heq
          obtain ⟨j, hj, hij⟩ := Option.map_eq_some_iff.mp heq
          rw [hj, hname hij]
        · rintro rfl
          rfl
      simp only [hiff]

theorem Connected.setClipboard (h : s.Connected name) (n : Option ι) (clip : ClipboardManager) :
    (s.setClipboard n clip).Connected name := by
  cases n with
  | none => exact ⟨h.sharing, h.clientSharing, h.inactive, h.unpaused, h.registered, h.known⟩
  | some i =>
      refine ⟨h.sharing, ?_, h.inactive, h.unpaused, h.registered, h.known⟩
      intro j
      show (Function.update s.clients i _ j).state.config.clipboardSharing = true
      by_cases hij : j = i
      · rw [hij, Function.update_self]
        exact h.clientSharing i
      · rw [Function.update_of_ne hij]
        exact h.clientSharing j

theorem clipboard_setClipboard (s : ClipboardNet ι) (n m : Option ι) (clip : ClipboardManager) :
    (s.setClipboard n clip).clipboard m = if m = n then clip else s.clipboard m := by
  cases n with
  | none => cases m <;> rfl
  | some i =>
      cases m with
      | none => rfl
      | some j =>
          show (Function.update s.clients i _ j).clipboard = _
          by_cases hij : j = i
          · subst hij
            rw [Function.update_self, if_pos rfl]
          · rw [Function.update_of_ne hij, if_neg fun heq => hij (Option.some.inj heq)]
            rfl

/-- The clipboard of a machine is replaced; nothing under way is. -/
theorem view_setClipboard (name : ι → String) (s : ClipboardNet ι) (n m : Option ι)
    (clip : ClipboardManager) :
    (s.setClipboard n clip).view name m =
      if m = n then { s.view name m with held := clip.system, seen := clip.lastContent }
      else s.view name m := by
  have hrest : (s.setClipboard n clip).view name m =
      { s.view name m with
        held := ((s.setClipboard n clip).clipboard m).system
        seen := ((s.setClipboard n clip).clipboard m).lastContent } := by
    cases n <;> cases m <;> rfl
  rw [hrest, clipboard_setClipboard]
  split <;> rfl

/-- A step of one machine, and of its replica. -/
theorem Refines.set (h : Refines name s r) {n : Option ι} {replica : Replica String}
    (hconnected : s'.Connected name) (hcarried : s'.Carried name)
    (hself : viewOf replica = s'.view name n)
    (hothers : ∀ m, m ≠ n → s'.view name m = s.view name m) :
    Refines name s' (r.set n replica) := by
  refine ⟨hconnected, hcarried, ?_⟩
  intro m
  show viewOf (Function.update r.replica n replica m) = s'.view name m
  by_cases hm : m = n
  · rw [hm, Function.update_self]
    exact hself
  · rw [Function.update_of_ne hm, hothers m hm]
    exact h.view m

theorem mem_update {κ α : Type} [DecidableEq κ] {f : κ → List α} {n m : κ} {l : List α} {a : α}
    (h : a ∈ Function.update f n l m) : a ∈ f m ∨ a ∈ l := by
  by_cases hm : m = n
  · rw [hm, Function.update_self] at h
    exact Or.inr h
  · rw [Function.update_of_ne hm] at h
    exact Or.inl h

theorem Carried.setClipboard (h : s.Carried name) (n : Option ι) (clip : ClipboardManager) :
    (s.setClipboard n clip).Carried name := by
  cases n with
  | none => exact ⟨h.copies, h.reported, h.up, h.down, h.events⟩
  | some i => exact ⟨h.copies, h.reported, h.up, h.down, h.events⟩

theorem Carried.setCopies (h : s.Carried name) (n : Option ι) {values : List String}
    (hvalues : ∀ value ∈ values, value ≠ "") :
    ({ s with copies := Function.update s.copies n values } : ClipboardNet ι).Carried name := by
  refine ⟨?_, h.reported, h.up, h.down, h.events⟩
  intro m value hvalue
  rcases mem_update hvalue with hold | hnew
  · exact h.copies m value hold
  · exact hvalues value hnew

theorem Carried.setReported (h : s.Carried name) (n : Option ι) {values : List String}
    (hvalues : ∀ value ∈ values, value ≠ "") :
    ({ s with reported := Function.update s.reported n values } : ClipboardNet ι).Carried name := by
  refine ⟨h.copies, ?_, h.up, h.down, h.events⟩
  intro m value hvalue
  rcases mem_update hvalue with hold | hnew
  · exact h.reported m value hold
  · exact hvalues value hnew

theorem Refines.copy (h : Refines name s r) (n : Option ι) {value : String} (hvalue : value ≠ "") :
    Refines name
      { s.setClipboard n ((s.clipboard n).wlCopy value) with
        copies := Function.update s.copies n (s.copies n ++ [value]) }
      (r.set n ((r.replica n).change value)) := by
  have hcopies : (s.setClipboard n ((s.clipboard n).wlCopy value)).copies = s.copies := by
    cases n <;> rfl
  have hview : ∀ m, ({ s.setClipboard n ((s.clipboard n).wlCopy value) with
      copies := Function.update s.copies n (s.copies n ++ [value]) } : ClipboardNet ι).view name m =
      { (s.setClipboard n ((s.clipboard n).wlCopy value)).view name m with
        changes := Function.update s.copies n (s.copies n ++ [value]) m } := by
    intro m
    cases m <;> rfl
  have hconnected := h.connected.setClipboard n ((s.clipboard n).wlCopy value)
  refine h.set ?_ ?_ ?_ ?_
  · exact hconnected.congr rfl rfl
  · rw [← hcopies]
    refine (h.carried.setClipboard n _).setCopies n ?_
    intro v hv
    rw [hcopies] at hv
    rcases List.mem_append.mp hv with hold | hlast
    · exact h.carried.copies n v hold
    · rw [List.mem_singleton.mp hlast]
      exact hvalue
  · have hold : viewOf ((r.replica n).change value) = { s.view name n with
        held := value, changes := (s.view name n).changes ++ [value] } := by
      rw [← h.view n]
      simp only [viewOf, Replica.change, List.map_append, List.map_cons, List.map_nil]
    rw [hview, view_setClipboard, if_pos rfl, Function.update_self, hold]
    rfl
  · intro m hm
    rw [hview, view_setClipboard, if_neg hm, Function.update_of_ne hm]
    rfl

/-- The report of a replica, by what can be seen of it. -/
theorem report_view {replica : Replica String} {w : View} (h : viewOf replica = w)
    {value : String} {rest : List String} (hchanges : w.changes = value :: rest) :
    ∃ replica', replica.report = some replica' ∧
      viewOf replica' =
        if w.seen = value then { w with changes := rest }
        else { w with seen := value, changes := rest, way := w.way ++ [value] } := by
  subst h
  obtain ⟨e, es, hlist, rfl, rfl⟩ := List.map_eq_cons_iff.mp hchanges
  unfold Replica.report
  rw [hlist]
  show ∃ replica', (if replica.seen = e.1 then _ else _) = some replica' ∧
    viewOf replica' = if replica.seen = e.1 then _ else _
  split
  · exact ⟨_, rfl, rfl⟩
  · refine ⟨_, rfl, ?_⟩
    simp only [viewOf, List.map_append, List.map_cons, List.map_nil]

theorem Refines.report (h : Refines name s r) {n : Option ι} {value : String} {rest : List String}
    (hcopies : s.copies n = value :: rest) :
    ∃ replica, (r.replica n).report = some replica ∧
      Refines name (s.report n value rest) (r.set n replica) := by
  obtain ⟨replica, hreport, hreplica⟩ := report_view (h.view n) hcopies
  refine ⟨replica, hreport, ?_⟩
  have hvalue : value ≠ "" := h.carried.copies n value (by rw [hcopies]; exact List.mem_cons_self ..)
  have hrest : ∀ v ∈ rest, v ≠ "" := by
    intro v hv
    exact h.carried.copies n v (by rw [hcopies]; exact List.mem_cons_of_mem _ hv)
  rw [s.report_eq n hvalue]
  split
  · rename_i hseen
    have hconnected := h.connected.setClipboard n (s.clipboard n)
    have hview : ∀ m, ({ s.setClipboard n (s.clipboard n) with
        copies := Function.update s.copies n rest } : ClipboardNet ι).view name m =
        { s.view name m with changes := Function.update s.copies n rest m } := by
      intro m
      have hsame : (s.setClipboard n (s.clipboard n)).view name m = s.view name m := by
        rw [view_setClipboard]
        split
        · rename_i hm
          rw [hm]
          rfl
        · rfl
      rw [← hsame]
      cases m <;> rfl
    refine h.set ?_ ?_ ?_ ?_
    · exact hconnected.congr rfl rfl
    · have hcarried := (h.carried.setClipboard n (s.clipboard n)).setCopies n hrest
      cases n <;> exact hcarried
    · rw [hview, Function.update_self, hreplica]
      exact if_pos hseen
    · intro m hm
      rw [hview, Function.update_of_ne hm]
      rfl
  · rename_i hnew
    have hconnected := h.connected.setClipboard n ((s.clipboard n).record value)
    have hview : ∀ m, ({ s.setClipboard n ((s.clipboard n).record value) with
        copies := Function.update s.copies n rest
        reported := Function.update s.reported n (s.reported n ++ [value]) } :
          ClipboardNet ι).view name m =
        { (s.setClipboard n ((s.clipboard n).record value)).view name m with
          changes := Function.update s.copies n rest m
          way := s.events.filterMap (valueFrom name m) ++ s.sentUp m ++
            Function.update s.reported n (s.reported n ++ [value]) m } := by
      intro m
      cases n <;> cases m <;> rfl
    refine h.set ?_ ?_ ?_ ?_
    · exact hconnected.congr rfl rfl
    · have hreported : ∀ v ∈ s.reported n ++ [value], v ≠ "" := by
        intro v hv
        rcases List.mem_append.mp hv with hold | hlast
        · exact h.carried.reported n v hold
        · rw [List.mem_singleton.mp hlast]
          exact hvalue
      have hcarried := ((h.carried.setClipboard n ((s.clipboard n).record value)).setCopies n
        hrest).setReported n hreported
      cases n <;> exact hcarried
    · rw [hview, view_setClipboard, if_pos rfl, Function.update_self, Function.update_self, hreplica,
        ← List.append_assoc]
      exact if_neg hnew
    · intro m hm
      rw [hview, view_setClipboard, if_neg hm, Function.update_of_ne hm, Function.update_of_ne hm]
      rfl

theorem Carried.setUp (h : s.Carried name) (i : ι) {msgs : List Message}
    (hmsgs : ∀ msg ∈ msgs, IsNews msg) :
    ({ s with up := Function.update s.up i msgs } : ClipboardNet ι).Carried name := by
  refine ⟨h.copies, h.reported, ?_, h.down, h.events⟩
  intro j msg hmsg
  rcases mem_update hmsg with hold | hnew
  · exact h.up j msg hold
  · exact hmsgs msg hnew

/-- A value leaves the server's watcher for the event queue. -/
theorem Refines.forward (h : Refines name s r) {value : String} {rest : List String}
    (hreported : s.reported none = value :: rest) :
    Refines name
      { s with
        reported := Function.update s.reported none rest
        events := s.events ++ [.clipboardChanged value] } r := by
  have hall : ∀ v ∈ value :: rest, v ≠ "" := by
    rw [← hreported]
    exact h.carried.reported none
  refine h.move ?_ ?_ ?_
  · exact h.connected.congr rfl rfl
  · exact (h.carried.setReported none fun v hv => hall v (List.mem_cons_of_mem _ hv)).push none
      (hall value (List.mem_cons_self ..))
  · intro m
    have hlast := valueFrom_event h.connected.injective m none value
    have hway : (s.events ++ [event name none value]).filterMap (valueFrom name m) ++ s.sentUp m
        ++ Function.update s.reported none rest m
        = s.events.filterMap (valueFrom name m) ++ s.sentUp m ++ s.reported m := by
      rw [List.filterMap_append, List.filterMap_cons, hlast]
      cases m with
      | none => simp [sentUp, hreported]
      | some i => simp
    cases m with
    | none => exact congrArg (fun l => { s.view name none with way := l }) hway
    | some i => exact congrArg (fun l => { s.view name (some i) with way := l }) hway

/-- A value leaves a client. -/
theorem Refines.send (h : Refines name s r) {i : ι} {value : String} {rest : List String}
    (hreported : s.reported (some i) = value :: rest) :
    Refines name
      { s with
        reported := Function.update s.reported (some i) rest
        up := Function.update s.up i (s.up i ++ [Message.clipboardData value]) } r := by
  have hall : ∀ v ∈ value :: rest, v ≠ "" := by
    rw [← hreported]
    exact h.carried.reported (some i)
  refine h.move ?_ ?_ ?_
  · exact h.connected.congr rfl rfl
  · refine (h.carried.setReported (some i) fun v hv => hall v (List.mem_cons_of_mem _ hv)).setUp i ?_
    intro msg hmsg
    rcases List.mem_append.mp hmsg with hold | hlast
    · exact h.carried.up i msg hold
    · exact ⟨value, hall value (List.mem_cons_self ..), List.mem_singleton.mp hlast⟩
  · intro m
    cases m with
    | none => rfl
    | some j =>
        have hway : s.events.filterMap (valueFrom name (some j))
            ++ (Function.update s.up i (s.up i ++ [Message.clipboardData value]) j).map textOf
            ++ Function.update s.reported (some i) rest (some j)
            = s.events.filterMap (valueFrom name (some j)) ++ s.sentUp (some j)
              ++ s.reported (some j) := by
          by_cases hj : j = i
          · subst hj
            simp [sentUp, hreported]
          · simp [Function.update_of_ne, hj, sentUp]
        exact congrArg (fun l => { s.view name (some j) with way := l }) hway

/-- A value of a client reaches the event queue. -/
theorem Refines.read (h : Refines name s r) {i : ι} {msg : Message} {rest : List Message}
    (hup : s.up i = msg :: rest) :
    Refines name
      { s with
        up := Function.update s.up i rest
        events := s.events ++ [.clientMessage (name i) msg] } r := by
  have hall : ∀ m ∈ msg :: rest, IsNews m := by
    rw [← hup]
    exact h.carried.up i
  obtain ⟨value, hvalue, rfl⟩ := hall msg (List.mem_cons_self ..)
  refine h.move ?_ ?_ ?_
  · exact h.connected.congr rfl rfl
  · exact (h.carried.setUp i fun m hm => hall m (List.mem_cons_of_mem _ hm)).push (some i) hvalue
  · intro m
    have hlast := valueFrom_event h.connected.injective m (some i) value
    cases m with
    | none =>
        have hway : (s.events ++ [event name (some i) value]).filterMap (valueFrom name none)
            = s.events.filterMap (valueFrom name none) := by
          rw [List.filterMap_append, List.filterMap_cons, hlast, if_neg nofun, List.filterMap_nil,
            List.append_nil]
        exact congrArg (fun l => { s.view name none with way := l ++ [] ++ s.reported none }) hway
    | some j =>
        have hway : (s.events ++ [event name (some i) value]).filterMap (valueFrom name (some j))
            ++ (Function.update s.up i rest j).map textOf ++ s.reported (some j)
            = s.events.filterMap (valueFrom name (some j)) ++ s.sentUp (some j)
              ++ s.reported (some j) := by
          rw [List.filterMap_append, List.filterMap_cons, hlast]
          by_cases hj : j = i
          · subst hj
            simp [sentUp, hup]
          · simp [Function.update_of_ne, hj, sentUp]
        exact congrArg (fun l => { s.view name (some j) with way := l }) hway

/-- What a replica that the hub took a value from shows. -/
theorem view_taken {replica : Replica String} {w : View} (h : viewOf replica = w) {value : String}
    {rest : List String} (hway : w.way = value :: rest) :
    ∃ fresh tail, replica.way = (value, fresh) :: tail ∧
      viewOf { replica with way := tail } = { w with way := rest } := by
  subst h
  obtain ⟨⟨v, fresh⟩, tail, hlist, rfl, rfl⟩ := List.map_eq_cons_iff.mp hway
  exact ⟨fresh, tail, hlist, rfl⟩

theorem viewOf_apply (replica : Replica String) (value : String) :
    viewOf (replica.apply value) = { viewOf replica with held := value, seen := value } := by
  simp only [viewOf, Replica.apply, List.map_map, Function.comp_def]

theorem viewOf_queue (replica : Replica String) (value : String) :
    viewOf (replica.queue value) =
      { viewOf replica with inbox := (viewOf replica).inbox ++ [value] } := rfl

/-- The state after the server has handled a value. -/
def served (s : ClipboardNet ι) (n : Option ι) (value : String) (events : List (ServerEvent ι)) :
    ClipboardNet ι :=
  { s with
    server := (if n = none then s else s.setClipboard none ⟨value, value⟩).server
    down := s.passedOn n value
    events := events }

theorem Connected.served (h : s.Connected name) (n : Option ι) (value : String)
    (events : List (ServerEvent ι)) : (s.served n value events).Connected name := by
  cases n with
  | none => exact ⟨h.sharing, h.clientSharing, h.inactive, h.unpaused, h.registered, h.known⟩
  | some i => exact ⟨h.sharing, h.clientSharing, h.inactive, h.unpaused, h.registered, h.known⟩

theorem Carried.served (h : s.Carried name) {n : Option ι} {value : String}
    {events : List (ServerEvent ι)} (hevents : s.events = event name n value :: events)
    (hvalue : value ≠ "") : (s.served n value events).Carried name := by
  refine ⟨h.copies, h.reported, h.up, ?_, ?_⟩
  · intro i msg hmsg
    have hcases : msg ∈ s.down i ∨ msg = Message.clipboardData value := by
      by_cases hn : n = some i
      · rw [hn] at hmsg
        rw [← s.passedOn_self i value]
        exact Or.inl hmsg
      · have hqueued : msg ∈ s.passedOn n value i := hmsg
        rw [s.passedOn_of_ne hn] at hqueued
        exact (List.mem_append.mp hqueued).imp_right List.mem_singleton.mp
    rcases hcases with hold | rfl
    · exact h.down i msg hold
    · exact ⟨value, hvalue, rfl⟩
  · intro e he
    apply h.events e
    rw [hevents]
    exact List.mem_cons_of_mem _ he

/-- The server handles a value. -/
theorem Refines.serve (h : Refines name s r) {n : Option ι} {value : String}
    {events : List (ServerEvent ι)} (hevents : s.events = event name n value :: events)
    (hvalue : value ≠ "") :
    ∃ r', HubRegister.next none r (.process n) = some r' ∧
      Refines name (s.served n value events) r' := by
  have hhead : ∀ m, (s.view name m).way =
      (if m = n then [value] else []) ++ events.filterMap (valueFrom name m) ++ s.sentUp m
        ++ s.reported m := by
    intro m
    show s.events.filterMap (valueFrom name m) ++ s.sentUp m ++ s.reported m = _
    rw [hevents, List.filterMap_cons, valueFrom_event h.connected.injective]
    split <;> simp_all
  have hway : (s.view name n).way =
      value :: (events.filterMap (valueFrom name n) ++ s.sentUp n ++ s.reported n) := by
    rw [hhead, if_pos rfl]
    rfl
  obtain ⟨fresh, tail, htail, htaken⟩ := view_taken (h.view n) hway
  refine ⟨⟨HubRegister.relay none r n value tail, some ⟨value, n, fresh⟩⟩, ?_, ?_, ?_, ?_⟩
  · simp only [HubRegister.next, htail]
  · exact h.connected.served n value events
  · exact h.carried.served hevents hvalue
  · intro m
    show viewOf (HubRegister.relay none r n value tail m) = _
    unfold HubRegister.relay
    split
    -- the machine the value came from: it is passed over
    · rename_i hm
      subst hm
      rw [htaken]
      cases m with
      | none => rfl
      | some i =>
          have hdown := congrArg (List.map textOf) (s.passedOn_self i value)
          exact congrArg (fun l => View.mk _ _ _ _ l) hdown.symm
    · rename_i hm
      have hkept := hhead m
      rw [if_neg hm, List.nil_append] at hkept
      split
      -- the server applies what a client sent
      · rename_i hhub
        subst hhub
        cases n with
        | none => exact absurd rfl hm
        | some i =>
            rw [viewOf_apply, h.view none]
            exact congrArg (fun l => View.mk value value (s.copies none) l []) hkept
      · rename_i hclient
        cases m with
        | none => exact absurd rfl hclient
        | some j =>
            have hdown := congrArg (List.map textOf) (s.passedOn_of_ne (Ne.symm hm) value)
            rw [List.map_append] at hdown
            rw [viewOf_queue, h.view (some j)]
            exact congrArg₂ (fun l l' => View.mk _ _ _ l l') hkept hdown.symm

/-- The state after a client has applied a value. -/
def applied (s : ClipboardNet ι) (i : ι) (value : String) (rest : List Message) : ClipboardNet ι :=
  { s.setClipboard (some i) ⟨value, value⟩ with down := Function.update s.down i rest }

/-- A client applies a value. -/
theorem Refines.deliver (h : Refines name s r) {i : ι} {value : String} {rest : List Message}
    (hdown : s.down i = Message.clipboardData value :: rest) :
    ∃ r', HubRegister.next none r (.deliver (some i)) = some r' ∧
      Refines name (s.applied i value rest) r' := by
  have hinbox : (r.replica (some i)).inbox = value :: rest.map textOf := by
    have hsame : (viewOf (r.replica (some i))).inbox = (s.view name (some i)).inbox := by
      rw [h.view]
    refine hsame.trans ?_
    show (s.down i).map textOf = _
    rw [hdown]
    rfl
  have hconnected := h.connected.setClipboard (some i) ⟨value, value⟩
  have hset : Refines name (s.applied i value rest)
      (r.set (some i) ({ r.replica (some i) with inbox := rest.map textOf }.apply value)) := by
    refine h.set ?_ ?_ ?_ ?_
    · exact hconnected.congr rfl rfl
    · refine ⟨h.carried.copies, h.carried.reported, h.carried.up, ?_, h.carried.events⟩
      intro j msg hmsg
      rcases mem_update hmsg with hold | hnew
      · exact h.carried.down j msg hold
      · apply h.carried.down i msg
        rw [hdown]
        exact List.mem_cons_of_mem _ hnew
    · have hold : viewOf ({ r.replica (some i) with inbox := rest.map textOf }.apply value) =
          { s.view name (some i) with held := value, seen := value, inbox := rest.map textOf } := by
        rw [viewOf_apply, ← h.view (some i)]
        rfl
      have hnew : (s.applied i value rest).view name (some i) =
          { (s.setClipboard (some i) ⟨value, value⟩).view name (some i) with
            inbox := (Function.update s.down i rest i).map textOf } := rfl
      rw [hold, hnew, view_setClipboard, if_pos rfl, Function.update_self]
    · intro m hm
      have hother : (s.setClipboard (some i) ⟨value, value⟩).view name m = s.view name m := by
        rw [view_setClipboard, if_neg hm]
      cases m with
      | none => rfl
      | some j =>
          have hj : j ≠ i := fun heq => hm (congrArg some heq)
          rw [← hother]
          show ({ (s.setClipboard (some i) ⟨value, value⟩).view name (some j) with
            inbox := (Function.update s.down i rest j).map textOf } : View) = _
          rw [Function.update_of_ne hj]
          rfl
  refine ⟨r.delivered (some i) value (rest.map textOf), ?_, hset.connected, hset.carried, hset.view⟩
  simp only [HubRegister.next, hinbox]

/-- Every step of the net is a step of the register, or none. -/
theorem Refines.step {l : Label ι} (h : Refines name s r) (hguard : s.NotEmpty l)
    (hnext : s.next name l = some s') : Refines name s' (s.registerStep l r) := by
  have hstep : ∀ {a : HubRegister.Label (Option ι) String} {r' : HubRegister (Option ι) String}
      {t : ClipboardNet ι}, s.registerLabel l = some a → HubRegister.next none r a = some r' →
      Refines name t r' → Refines name t (s.registerStep l r) := by
    intro a r' t hlabel hr hrefines
    rw [registerStep, hlabel, Option.bind_some, hr]
    exact hrefines
  cases l with
  | copy n value =>
      cases hnext
      exact hstep rfl rfl (h.copy n hguard)
  | report n =>
      simp only [next] at hnext
      split at hnext
      · cases hnext
      · rename_i value rest hcopies
        cases hnext
        obtain ⟨replica, hreport, hrefines⟩ := h.report hcopies
        exact hstep rfl (by rw [HubRegister.next, hreport]; rfl) hrefines
  | send n =>
      simp only [next] at hnext
      split at hnext
      · cases hnext
      · rename_i value rest hreported
        cases n with
        | none =>
            cases hnext
            exact h.forward hreported
        | some i =>
            cases hnext
            exact h.send hreported
  | read i =>
      simp only [next] at hnext
      split at hnext
      · cases hnext
      · rename_i msg rest hup
        cases hnext
        exact h.read hup
  | serve env =>
      simp only [next] at hnext
      split at hnext
      · cases hnext
      -- the event is a value from one machine, and its label finds that machine by the queue
      -- registered under the name
      · rename_i e events hevents
        cases hnext
        obtain ⟨n, value, hvalue, rfl⟩ := h.carried.events e
          (by rw [hevents]; exact List.mem_cons_self ..)
        obtain ⟨r', hr, hrefines⟩ := h.serve hevents hvalue
        rw [h.connected.handle_event env n hvalue]
        refine hstep ?_ hr hrefines
        simp only [registerLabel, hevents]
        cases n with
        | none => rfl
        | some i =>
            obtain ⟨client, hclient, rfl⟩ := h.connected.registered i
            simp only [event, hclient, Option.map_some]
  | deliver i now =>
      simp only [next] at hnext
      split at hnext
      · cases hnext
      · rename_i msg rest hdown
        cases hnext
        obtain ⟨value, hvalue, rfl⟩ := h.carried.down i msg
          (by rw [hdown]; exact List.mem_cons_self ..)
        obtain ⟨r', hr, hrefines⟩ := h.deliver hdown
        rw [Client.applyMessage_clipboardData (h.connected.clientSharing i) value now,
          ClipboardManager.set_of_ne_empty _ hvalue]
        exact hstep rfl hr hrefines

/-! ## Whole runs -/

theorem refines_init (h : (lts name).init s) : Refines name s s.register := by
  obtain ⟨hconnected, hquiet⟩ := h
  refine ⟨hconnected, ?_, ?_⟩
  · refine ⟨?_, ?_, ?_, ?_, ?_⟩
    · intro n
      rw [hquiet.copies n]
      nofun
    · intro n
      rw [hquiet.reported n]
      nofun
    · intro i
      rw [hquiet.up i]
      nofun
    · intro i
      rw [hquiet.down i]
      nofun
    · rw [hquiet.events]
      nofun
  · intro n
    have hup : s.sentUp n = [] := by
      cases n with
      | none => rfl
      | some i => exact congrArg (List.map textOf) (hquiet.up i)
    have hinbox : (s.view name n).inbox = [] := by
      cases n with
      | none => rfl
      | some i => exact congrArg (List.map textOf) (hquiet.down i)
    have hway : (s.view name n).way = [] := by
      show s.events.filterMap (valueFrom name n) ++ s.sentUp n ++ s.reported n = []
      rw [hquiet.events, hup, hquiet.reported n]
      rfl
    show View.mk _ _ [] [] [] = View.mk _ _ _ (s.view name n).way (s.view name n).inbox
    rw [hquiet.copies n, hway, hinbox]
    rfl

theorem reach_register (s : ClipboardNet ι) :
    (HubRegister.lts none).Reach LTS.anyStep s.register :=
  ⟨s.register, [], ⟨fun _ => ⟨⟨rfl, rfl, rfl⟩, rfl⟩, rfl⟩, .nil _⟩

/-- The history is a run of the register. -/
theorem reach_registerStep (h : (HubRegister.lts none).Reach LTS.anyStep r) (l : Label ι) :
    (HubRegister.lts none).Reach LTS.anyStep (s.registerStep l r) := by
  unfold registerStep
  cases hnext : (s.registerLabel l).bind (HubRegister.next none r) with
  | none => exact h
  | some r' =>
      obtain ⟨a, _, ha⟩ := Option.bind_eq_some_iff.mp hnext
      exact h.step trivial ha

/-- At the end of every run that comes to rest, every machine holds the value that the server handled
last, but for the one it was copied on; and that one does if nothing was applied there since. -/
theorem latest_held (name : ι → String) (p q : ClipboardNet ι) (ls : List (Label ι))
    (hinit : (lts name).init p) (hrun : (lts name).Steps NotEmpty p ls q) (hquiet : q.Quiet)
    (u : Lib.Update (Option ι) String) (hu : (history name p ls).latest = some u) :
    (∀ n, n ≠ u.origin → (q.clipboard n).system = u.value) ∧
      (u.fresh = true → (q.clipboard u.origin).system = u.value) := by
  obtain ⟨hrefines, hreach⟩ : Refines name q (history name p ls) ∧
      (HubRegister.lts none).Reach LTS.anyStep (history name p ls) := by
    refine LTS.Steps.record_invariant
      (I := fun q r => Refines name q r ∧ (HubRegister.lts none).Reach LTS.anyStep r) ?_ hrun
        ⟨refines_init hinit, reach_register p⟩
    intro s l s' r hs hguard hnext
    exact ⟨hs.1.step hguard hnext, reach_registerStep hs.2 l⟩
  have hheld : ∀ n, ((history name p ls).replica n).held = (q.clipboard n).system :=
    fun n => congrArg View.held (hrefines.view n)
  obtain ⟨hothers, horigin⟩ := (HubRegister.inv_reach hreach).agree (hrefines.quiet hquiet) hu
  refine ⟨?_, ?_⟩
  · intro n hn
    rw [← hheld n]
    exact hothers n hn
  · intro hfresh
    rw [← hheld u.origin]
    exact horigin hfresh

/-- The laptop is connected, and both clipboards are empty. -/
def laptopNet : ClipboardNet Unit where
  server :=
    { (Server.new Server.leftConfig ClipboardManager.new 0 : Server Unit) with
      clients := AList.insert "laptop" ⟨.left, 800, 600, ()⟩ ∅ }
  clients _ := Client.connected laptop ClipboardManager.new 0 0 (Message.handshakeAck "left" 640 480)
  copies _ := []
  reported _ := []
  up _ := []
  down _ := []
  events := []

theorem init_laptopNet : (lts fun _ => "laptop").init laptopNet := by
  refine ⟨⟨rfl, fun _ => rfl, rfl, rfl, fun _ => ⟨_, rfl, rfl⟩, ?_⟩, ⟨fun _ => rfl, fun _ => rfl,
    fun _ => rfl, fun _ => rfl, rfl⟩⟩
  intro m client hclient
  by_cases hm : m = "laptop"
  · exact hm
  · rw [show laptopNet.server.clients.lookup m = (∅ : Clients Unit).lookup m from
      AList.lookup_insert_ne hm] at hclient
    cases hclient

/-- The clock and the order of the one client. -/
def laptopEnv : Env Unit := ⟨0, HashOrder.entries Unit⟩

/-- A laptop and a tablet. -/
def pairName : Bool → String
  | false => "laptop"
  | true => "tablet"

/-- Both are connected, and all clipboards are empty. -/
def pairNet : ClipboardNet Bool where
  server :=
    { (Server.new Server.pairConfig ClipboardManager.new 0 : Server Bool) with
      clients := AList.insert "laptop" ⟨.left, 800, 600, false⟩
        (AList.insert "tablet" ⟨.right, 800, 600, true⟩ ∅) }
  clients i := Client.connected { laptop with name := pairName i } ClipboardManager.new 0 0
    (Message.handshakeAck (if i then "right" else "left") 640 480)
  copies _ := []
  reported _ := []
  up _ := []
  down _ := []
  events := []

theorem init_pairNet : (lts pairName).init pairNet := by
  refine ⟨⟨rfl, fun _ => rfl, rfl, rfl, ?_, ?_⟩, ⟨fun _ => rfl, fun _ => rfl, fun _ => rfl,
    fun _ => rfl, rfl⟩⟩
  · intro i
    cases i with
    | false => exact ⟨_, rfl, rfl⟩
    | true => exact ⟨_, rfl, rfl⟩
  · intro m client hclient
    by_cases hlaptop : m = "laptop"
    · subst hlaptop
      cases hclient
      rfl
    · have hrest : (AList.insert "tablet" ⟨.right, 800, 600, true⟩ ∅ : Clients Bool).lookup m
          = some client := (AList.lookup_insert_ne hlaptop).symm.trans hclient
      by_cases htablet : m = "tablet"
      · subst htablet
        cases hrest
        rfl
      · rw [AList.lookup_insert_ne htablet] at hrest
        cases hrest

/-- A value is copied on the laptop and reaches server and tablet; then one is copied on the tablet and
reaches the others. -/
def copiedTwice : List (Label Bool) :=
  let env : Env Bool := ⟨0, HashOrder.entries Bool⟩
  [.copy (some false) "a", .report (some false), .send (some false), .read false, .serve env,
    .deliver true 0, .copy (some true) "b", .report (some true), .send (some true), .read true,
    .serve env, .deliver false 0]

theorem latest_held_copiedTwice :
    ∃ q, (lts pairName).exec pairNet copiedTwice = some q ∧ (q.clipboard none).system = "b" ∧
      (q.clipboard (some false)).system = "b" ∧ (q.clipboard (some true)).system = "b" := by
  obtain ⟨q, hexec, hquiet⟩ : ∃ q, (lts pairName).exec pairNet copiedTwice = some q ∧ q.Quiet := by
    refine ⟨_, rfl, ?_⟩
    exact ⟨fun n => by rcases n with _ | _ | _ <;> rfl, fun n => by rcases n with _ | _ | _ <;> rfl,
      fun i => by cases i <;> rfl, fun i => by cases i <;> rfl, rfl⟩
  have hguarded : (lts pairName).Guarded NotEmpty pairNet copiedTwice := by
    have ha : "a" ≠ "" := by decide
    have hb : "b" ≠ "" := by decide
    exact ⟨ha, trivial, trivial, trivial, trivial, trivial, hb, trivial, trivial, trivial, trivial,
      trivial, trivial⟩
  have hhandled : (history pairName pairNet copiedTwice).latest.map
      (fun u => (u.value, u.origin, u.fresh)) = some ("b", some true, true) := by
    decide +kernel
  obtain ⟨⟨value, origin, fresh⟩, hlatest, heq⟩ := Option.map_eq_some_iff.mp hhandled
  cases heq
  obtain ⟨hothers, horigin⟩ := latest_held pairName pairNet q copiedTwice init_pairNet
    (LTS.steps_of_exec hexec hguarded) hquiet _ hlatest
  exact ⟨q, hexec, hothers none nofun, hothers (some false) (by simp), horigin rfl⟩

/-- The machine that takes a value from a message in a step. -/
def receiver (s : ClipboardNet ι) : Label ι → Option (Option ι)
  | .deliver i _ => some (some i)
  | .serve _ =>
      match s.events with
      | .clientMessage .. :: _ => some none
      | _ => none
  | _ => none

/-- The machines that have received a value along a run. -/
def received (name : ι → String) (s : ClipboardNet ι) (ls : List (Label ι)) : List (Option ι) :=
  (lts name).record (fun s l ns => (s.receiver l).toList ++ ns) s ls []

/-- Values copied on the server and on the laptop cross on the wire. -/
def crossed : List (Label Unit) :=
  [.copy none "a", .report none, .send none, .serve laptopEnv, .copy (some ()) "b",
    .report (some ()), .send (some ()), .read (), .serve laptopEnv, .deliver () 0]

/-- After values have crossed, each machine keeps the one that came from the other. -/
theorem crossed_copies_differ :
    ¬ ∀ (name : Unit → String) (p q : ClipboardNet Unit) (ls : List (Label Unit)),
      (lts name).init p → (lts name).Steps NotEmpty p ls q → q.Quiet →
      (∀ n, n ∈ received name p ls) → ∀ m n, (q.clipboard m).system = (q.clipboard n).system := by
  intro hall
  have hrun : ∃ q, (lts fun _ => "laptop").exec laptopNet crossed = some q ∧ q.Quiet ∧
      (q.clipboard none).system = "b" ∧ (q.clipboard (some ())).system = "a" := by
    refine ⟨_, rfl, ?_, rfl, rfl⟩
    exact ⟨fun n => by cases n <;> rfl, fun n => by cases n <;> rfl, fun _ => rfl, fun _ => rfl, rfl⟩
  obtain ⟨q, hexec, hquiet, hserver, hlaptop⟩ := hrun
  have hguarded : (lts fun _ => "laptop").Guarded NotEmpty laptopNet crossed := by
    have ha : "a" ≠ "" := by decide
    have hb : "b" ≠ "" := by decide
    exact ⟨ha, trivial, trivial, trivial, hb, trivial, trivial, trivial, trivial, trivial, trivial⟩
  have hsame := hall (fun _ => "laptop") laptopNet q crossed init_laptopNet
    (LTS.steps_of_exec hexec hguarded) hquiet ?_ none (some ())
  · rw [hserver, hlaptop] at hsame
    exact absurd hsame (by decide)
  · have hreceived : received (fun _ => "laptop") laptopNet crossed = [some (), none] := rfl
    intro n
    rw [hreceived]
    cases n with
    | none => exact List.mem_cons_of_mem _ (List.mem_singleton_self _)
    | some i => exact List.mem_cons_self ..

end ClipboardNet

end Bluecross
