/-
# Bluecross.ClipboardWatch — what the watcher makes of the output of `wl-paste --watch`.

`monitor_wayland` character by character: one loop reads a line, the loop inside it reads the lines
that come within 20 ms and then drops what it has of a further one, and what was read is stripped of
its line breaks and compared. The output is the contents of the changes with nothing in between, so a
value is recovered only as far as its line breaks allow.

The environment is at its best here (`Timely`): the next change waits until the watcher is at rest, the
window closes on a change that has been read to its end, the output does not end and the receiver is
there. Even so every value that is sent has cost a line break (`Spent`), and no sequence of values but
the empty one is reported as it is.
-/
import Bluecross.ClipboardNode

namespace Bluecross

open Lib (LTS)

/-- Where the loop over the watcher's output is. -/
inductive WatchPhase where
  /-- The outer `read_line`, with what it has of its line. -/
  | reading (line : List Char)
  /-- The inner one, with the lines that were read before. -/
  | coalescing (content line : List Char)
  | holding (content : String)
  | sending (content : String)
  | ended
  deriving DecidableEq, Repr

/-- A character is read, if a line is. -/
def WatchPhase.take (c : Char) : WatchPhase → Option WatchPhase
  | reading line =>
      if c = newline then some (coalescing (line ++ [c]) []) else some (reading (line ++ [c]))
  | coalescing content line =>
      if c = newline then some (coalescing (content ++ line ++ [c]) [])
      else some (coalescing content (line ++ [c]))
  | _ => none

/-- The characters that were read and are still to be sent, with one more for a line break that has
been stripped off. -/
def WatchPhase.size : WatchPhase → Nat
  | reading line => line.length
  | coalescing content line => content.length + line.length
  | holding content => content.length + 1
  | sending content => content.length + 1
  | ended => 0

/-- The monitor while `wl-paste --watch` runs, a character at a time. -/
structure ClipboardWatch where
  clip : ClipboardManager
  phase : WatchPhase
  /-- What `wl-paste` has written and nobody has read. -/
  output : List Char
  /-- `wl-paste` has exited. -/
  closed : Bool
  /-- The changes of the clipboard so far. -/
  changes : List String
  sent : List String

namespace ClipboardWatch

/-- A step of the clipboard, of `wl-paste`, or of the loop that reads its output. -/
inductive Label where
  /-- The clipboard changes, and `wl-paste` writes its content. -/
  | change (content : String)
  | exit
  | readChar
  /-- `read_line` meets the end of the output. -/
  | readEnd
  /-- The 20 ms are over before the line is. -/
  | timeout
  | compare
  /-- The receiver may be gone. -/
  | send (ok : Bool)
  deriving DecidableEq, Repr

/-- The watcher when it has stored the initial content and started `wl-paste`. -/
def start (initial : String) : ClipboardWatch where
  clip := ⟨initial, initial⟩
  phase := .reading []
  output := []
  closed := false
  changes := []
  sent := []

/-- What a step makes of the monitor. -/
def next (s : ClipboardWatch) : Label → Option ClipboardWatch
  | .change content =>
      if s.closed then none
      else some { s with
        clip := s.clip.wlCopy content
        output := s.output ++ content.toList
        changes := s.changes ++ [content] }
  | .exit => if s.closed then none else some { s with closed := true }
  | .readChar =>
      match s.output with
      | [] => none
      | c :: output => (s.phase.take c).map fun phase => { s with phase := phase, output := output }
  | .readEnd =>
      if s.closed ∧ s.output = [] then
        match s.phase with
        | .reading line =>
            if line = [] then some { s with phase := .ended }
            else some { s with phase := .coalescing line [] }
        | .coalescing content line =>
            if line = [] then some { s with phase := .holding (trimEnd content) }
            else some { s with phase := .coalescing (content ++ line) [] }
        | _ => none
      else none
  | .timeout =>
      match s.phase with
      -- `read_line` is dropped together with the part of the line it has
      | .coalescing content _ => some { s with phase := .holding (trimEnd content) }
      | _ => none
  | .compare =>
      match s.phase with
      | .holding content =>
          let (changed, clip) := s.clip.takeIfChanged content
          some { s with clip := clip, phase := if changed then .sending content else .reading [] }
      | _ => none
  | .send ok =>
      match s.phase with
      | .sending content =>
          if ok then some { s with phase := .reading [], sent := s.sent ++ [content] }
          else some { s with phase := .ended }
      | _ => none

/-- The watch of a clipboard that starts with some content. -/
def lts (initial : String) : LTS ClipboardWatch Label where
  init s := s = start initial
  next := next

/-- All output was read, and the watcher waits for more. -/
structure AtRest (s : ClipboardWatch) : Prop where
  output : s.output = []
  reading : ∃ line, s.phase = .reading line

/-- Changes are new and come one at a time, `wl-paste` writes each of them without a pause and runs on,
and there is a receiver. -/
def Timely (s : ClipboardWatch) : Label → Prop
  | .change content => s.AtRest ∧ content ≠ "" ∧ content ≠ s.clip.system
  | .timeout => s.output = []
  | .exit => False
  | .send ok => ok = true
  | _ => True

/-- Whatever of these values has been put on the clipboard when the watcher comes to rest, it has sent
as it was. -/
def Reports (initial : String) (values : List String) : Prop :=
  ∀ s, (lts initial).Reach Timely s → s.changes <+: values → s.AtRest → s.sent = s.changes

/-! ## Every value costs a line break -/

/-- The number of characters. -/
def chars (values : List String) : Nat := (values.map String.length).sum

theorem chars_concat (values : List String) (value : String) :
    chars (values ++ [value]) = chars values + value.length := by
  simp [chars]

theorem length_trimEnd_lt {content : List Char} (h : content.getLast? = some newline) :
    (trimEnd content).length < content.length := by
  obtain ⟨before, rfl⟩ := List.getLast?_eq_some_iff.mp h
  have hprefix := (List.rdropWhile_prefix (p := fun c => decide (c = newline)) before).length_le
  rw [trimEnd, String.length_ofList, List.rdropWhile_concat_pos _ _ _ (by simp), List.length_append]
  simp only [List.length_singleton]
  omega

/-- Reading a character keeps it, and lines are coalesced when they are complete. -/
theorem take_spec {c : Char} {phase phase' : WatchPhase} (h : phase.take c = some phase') :
    phase'.size = phase.size + 1 ∧
      ((∀ content line, phase = .coalescing content line → content.getLast? = some newline) →
        ∀ content line, phase' = .coalescing content line → content.getLast? = some newline) := by
  cases phase with
  | reading line =>
      simp only [WatchPhase.take] at h
      split at h
      · rename_i hc
        cases h
        refine ⟨by simp [WatchPhase.size], fun _ content line' h => ?_⟩
        cases h
        simp [hc]
      · cases h
        exact ⟨by simp [WatchPhase.size], nofun⟩
  | coalescing content line =>
      simp only [WatchPhase.take] at h
      split at h
      · rename_i hc
        cases h
        refine ⟨by simp [WatchPhase.size]; omega, fun _ content' line' h => ?_⟩
        cases h
        simp [hc]
      · cases h
        refine ⟨by simp [WatchPhase.size]; omega, fun hwhole content' line' h => ?_⟩
        cases h
        exact hwhole content line rfl
  | holding content => cases h
  | sending content => cases h
  | ended => cases h

/-- What has been sent, with one character more for each value, what is being read and what is still to
be read are among the characters of the changes. -/
structure Spent (s : ClipboardWatch) : Prop where
  chars_le : chars s.sent + s.sent.length + s.phase.size + s.output.length ≤ chars s.changes
  whole : ∀ content line, s.phase = .coalescing content line → content.getLast? = some newline
  running : s.closed = false

theorem spent_start (initial : String) : Spent (start initial) :=
  ⟨Nat.le_refl 0, nofun, rfl⟩

theorem spent_step {initial : String} :
    (lts initial).Preserves Timely Spent := by
  rintro s l s' ⟨hchars, hwhole, hrunning⟩ hguard hnext
  cases l with
  | change content =>
      simp only [lts, next, hrunning] at hnext
      cases hnext
      refine ⟨?_, hwhole, rfl⟩
      simp only [chars_concat, List.length_append, String.length_toList]
      omega
  | exit => exact hguard.elim
  | readChar =>
      simp only [lts, next] at hnext
      split at hnext
      · cases hnext
      · rename_i c output houtput
        rw [houtput, List.length_cons] at hchars
        obtain ⟨phase, htake, rfl⟩ := Option.map_eq_some_iff.mp hnext
        obtain ⟨hsize, hwhole'⟩ := take_spec htake
        refine ⟨?_, hwhole' hwhole, hrunning⟩
        simp only [hsize]
        omega
  | readEnd =>
      simp [lts, next, hrunning] at hnext
  | timeout =>
      simp only [lts, next] at hnext
      split at hnext
      · rename_i content line hphase
        cases hnext
        have hlt := length_trimEnd_lt (hwhole content line hphase)
        rw [hphase, WatchPhase.size] at hchars
        refine ⟨?_, nofun, hrunning⟩
        simp only [WatchPhase.size]
        omega
      · cases hnext
  | compare =>
      simp only [lts, next] at hnext
      split at hnext
      · rename_i content hphase
        cases hnext
        rw [hphase, WatchPhase.size] at hchars
        refine ⟨?_, ?_, hrunning⟩
        · simp only
          split
          · simp only [WatchPhase.size]
            omega
          · simp only [WatchPhase.size, List.length_nil]
            omega
        · intro content' line hphase'
          simp only at hphase'
          split at hphase' <;> cases hphase'
      · cases hnext
  | send ok =>
      simp only [Timely] at hguard
      subst hguard
      simp only [lts, next] at hnext
      split at hnext
      · rename_i content hphase
        cases hnext
        rw [hphase, WatchPhase.size] at hchars
        refine ⟨?_, nofun, hrunning⟩
        simp only [chars_concat, List.length_append, List.length_singleton, WatchPhase.size,
          List.length_nil]
        omega
      · cases hnext

theorem spent_of_reach {initial : String} {s : ClipboardWatch}
    (h : (lts initial).Reach Timely s) : Spent s := by
  refine LTS.Reach.invariant (fun s₀ h₀ => ?_) spent_step h
  obtain rfl : s₀ = start initial := h₀
  exact spent_start initial

/-- What was sent is not what was put on the clipboard, unless that was nothing. -/
theorem sent_eq_changes_iff {initial : String} {s : ClipboardWatch}
    (h : (lts initial).Reach Timely s) : s.sent = s.changes ↔ s.changes = [] := by
  have hchars := (spent_of_reach h).chars_le
  constructor
  · intro heq
    rw [heq] at hchars
    exact List.length_eq_zero_iff.mp (by omega)
  · intro hnone
    rw [hnone] at hchars ⊢
    have hzero : chars [] = 0 := rfl
    exact List.length_eq_zero_iff.mp (by omega)

/-! ## The watcher comes to rest -/

/-- A value that is held when everything was read is compared and perhaps sent. -/
theorem rests_after_holding {initial : String} {s : ClipboardWatch} {content : String}
    (hphase : s.phase = .holding content) (houtput : s.output = []) :
    ∃ ls s', (lts initial).Steps Timely s ls s' ∧ s'.changes = s.changes ∧ s'.AtRest := by
  have hcompare : (lts initial).next s .compare = some { s with
      clip := (s.clip.takeIfChanged content).2
      phase := if (s.clip.takeIfChanged content).1 then .sending content else .reading [] } := by
    simp only [lts, next, hphase]
  by_cases hchanged : (s.clip.takeIfChanged content).1 = true
  · rw [if_pos hchanged] at hcompare
    exact ⟨[.compare, .send true], _, .cons trivial hcompare (.single rfl rfl), rfl, houtput, [], rfl⟩
  · rw [if_neg hchanged] at hcompare
    exact ⟨[.compare], _, .single trivial hcompare, rfl, houtput, [], rfl⟩

/-- The watcher reads what there is, and comes to rest. -/
theorem comes_to_rest {initial : String} (output : List Char) :
    ∀ {s : ClipboardWatch}, s.output = output →
      (∃ line, s.phase = .reading line ∨ ∃ content, s.phase = .coalescing content line) →
      ∃ ls s', (lts initial).Steps Timely s ls s' ∧ s'.changes = s.changes ∧ s'.AtRest := by
  induction output with
  | nil =>
      rintro s houtput ⟨line, hreading | ⟨content, hcoalescing⟩⟩
      · exact ⟨[], s, .nil s, rfl, houtput, line, hreading⟩
      · have htimeout : (lts initial).next s .timeout
            = some { s with phase := .holding (trimEnd content) } := by
          simp only [lts, next, hcoalescing]
        obtain ⟨ls, s', hsteps, hchanges, hrest⟩ :=
          @rests_after_holding initial { s with phase := .holding (trimEnd content) } _ rfl houtput
        exact ⟨.timeout :: ls, s', .cons houtput htimeout hsteps, hchanges, hrest⟩
  | cons c output ih =>
      rintro s houtput ⟨line, hphase⟩
      obtain ⟨phase, htake, hreads⟩ : ∃ phase, s.phase.take c = some phase ∧
          ∃ line, phase = .reading line ∨ ∃ content, phase = .coalescing content line := by
        rcases hphase with hreading | ⟨content, hcoalescing⟩
        · rw [hreading, WatchPhase.take]
          split
          · exact ⟨_, rfl, [], .inr ⟨_, rfl⟩⟩
          · exact ⟨_, rfl, _, .inl rfl⟩
        · rw [hcoalescing, WatchPhase.take]
          split
          · exact ⟨_, rfl, [], .inr ⟨_, rfl⟩⟩
          · exact ⟨_, rfl, _, .inr ⟨_, rfl⟩⟩
      have hread : (lts initial).next s .readChar
          = some { s with phase := phase, output := output } := by
        simp only [lts, next, houtput, htake, Option.map_some]
      obtain ⟨ls, s', hsteps, hchanges, hrest⟩ :=
        @ih { s with phase := phase, output := output } rfl hreads
      exact ⟨.readChar :: ls, s', .cons trivial hread hsteps, hchanges, hrest⟩

/-- Values that can be put on the clipboard one after the other, each of them a change. -/
structure Changing (initial : String) (values : List String) : Prop where
  nonempty : ∀ value ∈ values, value ≠ ""
  chain : List.IsChain (· ≠ ·) (initial :: values)

/-- Values are reported as they are if and only if there are none. -/
theorem reports_iff {initial : String} {values : List String} (h : Changing initial values) :
    Reports initial values ↔ values = [] := by
  constructor
  · intro hreports
    cases values with
    | nil => rfl
    | cons value values =>
        -- the first value alone is enough: the watcher comes to rest, and has not sent it
        have hfirst : value ≠ initial := (List.isChain_cons_cons.mp h.chain).1.symm
        have hchange : Timely (start initial) (.change value) :=
          ⟨⟨rfl, [], rfl⟩, h.nonempty value (List.mem_cons_self ..), hfirst⟩
        obtain ⟨ls, s, hsteps, hchanges, hrest⟩ := @comes_to_rest initial value.toList
          { start initial with clip := ⟨initial, value⟩, output := value.toList, changes := [value] }
          rfl ⟨[], .inl rfl⟩
        have hreach : (lts initial).Reach Timely s :=
          ⟨start initial, .change value :: ls, rfl, .cons hchange rfl hsteps⟩
        have hprefix : s.changes <+: value :: values := by
          rw [hchanges]
          exact ⟨values, rfl⟩
        have hnone := (sent_eq_changes_iff hreach).mp (hreports s hreach hprefix hrest)
        rw [hchanges] at hnone
        cases hnone
  · rintro rfl s hreach hprefix _
    exact (sent_eq_changes_iff hreach).mpr (List.prefix_nil.mp hprefix)

/-- One word, without a line break, is not reported. -/
theorem reports_iff_word : ¬ Reports "" ["word"] := by
  have hchanging : Changing "" ["word"] := ⟨by decide, by decide⟩
  intro h
  cases (reports_iff hchanging).mp h

/-- Two copies, of which only the second ends in a line break. -/
def merging : List Label :=
  [.change "a", .readChar, .change "b\n", .readChar, .readChar, .timeout, .compare, .send true]

/-- The two values are sent as one, and without the line break. -/
theorem values_merge :
    (∃ s, (lts "").exec (start "") merging = some s ∧ s.AtRest ∧ s.changes = ["a", "b\n"] ∧
      s.sent = ["ab"]) ∧ ¬ Reports "" ["a", "b\n"] := by
  have hexec : ∃ s, (lts "").exec (start "") merging = some s ∧ s.AtRest ∧
      s.changes = ["a", "b\n"] ∧ s.sent = ["ab"] := ⟨_, rfl, ⟨rfl, [], rfl⟩, rfl, rfl⟩
  refine ⟨hexec, fun hreports => ?_⟩
  obtain ⟨s, hrun, hrest, hchanges, hsent⟩ := hexec
  have hguarded : (lts "").Guarded Timely (start "") merging :=
    ⟨⟨⟨rfl, [], rfl⟩, by decide, by decide⟩, trivial, ⟨⟨rfl, ['a'], rfl⟩, by decide, by decide⟩, trivial,
      trivial, rfl, trivial, rfl, trivial⟩
  have hreach : (lts "").Reach Timely s := ⟨start "", merging, rfl, LTS.steps_of_exec hrun hguarded⟩
  have hall := hreports s hreach (hchanges ▸ List.prefix_rfl) hrest
  rw [hsent, hchanges] at hall
  exact absurd hall (by decide)

end ClipboardWatch

end Bluecross
