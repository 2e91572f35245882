/-
# Bluecross.ClipboardNode — the clipboard of one machine and the tasks that work on it.

Three parties share it: applications put values on it, `set` applies values received from a peer, and
the watcher reports changes. `set` records its value and then writes it, in two steps, and what becomes
of `wl-copy` it does not ask; the watcher reads and then compares, in two steps; each lock section is
one step. So the steps of the three may come in any order.

The watcher reads the clipboard once, stores what it found, and then follows the output of
`wl-paste --watch cat`, or polls when that cannot be started. The output holds the contents of the
changes one behind the other with nothing in between, and the watcher reads it by lines: one line, and
those behind it that come within 20 ms. What it has of a further line by then is lost.
-/
import Mathlib.Data.List.DropRight
import Bluecross.Clipboard
import Bluecross.Lib.Transition

namespace Bluecross

open Lib (LTS)

/-- The end of a line. -/
def newline : Char := Char.ofNat 10

/-- `trim_end_matches` for line breaks. -/
def trimEnd (text : List Char) : String := String.ofList (text.rdropWhile (· = newline))

/-- A text that ends otherwise and line breaks behind it: the text is left. -/
theorem trimEnd_append {text : String} (h : text.toList.getLast? ≠ some newline) (breaks : Nat) :
    trimEnd (text.toList ++ List.replicate breaks newline) = text := by
  have hdropped : (text.toList ++ List.replicate breaks newline).rdropWhile (· = newline)
      = text.toList := by
    induction breaks with
    | zero =>
        rw [List.replicate_zero, List.append_nil, List.rdropWhile_eq_self_iff]
        intro hne hlast
        apply h
        rw [List.getLast?_eq_some_getLast hne, of_decide_eq_true hlast]
    | succ breaks ih =>
        rw [List.replicate_succ', ← List.append_assoc, List.rdropWhile_concat, if_pos, ih]
        exact decide_eq_true rfl
  rw [trimEnd, hdropped, String.ofList_toList]

/-- How the watcher learns of changes. -/
inductive WatchPath where
  /-- From the output of `wl-paste --watch`. -/
  | watch
  /-- The output has ended, and this is the last of it. -/
  | drained
  | poll
  deriving DecidableEq, Repr

/-- Where `monitor` is, from its initial read through its readings. -/
inductive Monitor where
  | start
  /-- The initial content was read. -/
  | initial (content : String)
  /-- It was stored. -/
  | stored
  | waiting (path : WatchPath)
  /-- A value was read and is to be compared. -/
  | holding (path : WatchPath) (content : String)
  /-- A value was found to be new and is to be sent. -/
  | sending (path : WatchPath) (content : String)
  | ended
  deriving DecidableEq, Repr

/-- Whether `wl-paste --watch` runs. -/
def Monitor.watching : Monitor → Bool
  | waiting path | holding path _ | sending path _ => path = .watch
  | _ => false

/-- One machine: its manager, the `set` that may be under way, and the monitor. -/
structure ClipboardNode where
  clip : ClipboardManager
  /-- The value that `set` has recorded and not written yet. -/
  setting : Option String
  monitor : Monitor
  /-- The contents in the output of the watch that are still to be read. -/
  output : List String
  /-- What applications have put on the clipboard so far. -/
  copied : List String
  /-- What the watcher has sent so far. -/
  sent : List String

/-- What is left of the contents when so many characters are read. -/
def dropChars : Nat → List String → List String
  | _, [] => []
  | n, content :: rest =>
      if content.length ≤ n then dropChars (n - content.length) rest
      else String.ofList (content.toList.drop n) :: rest

/-- Whole contents are read: what is left are whole contents behind them. -/
theorem mem_of_mem_dropChars {content : String} {contents rest : List String}
    (h : content ∈ dropChars ((contents.map String.length).sum) (contents ++ rest)) :
    content ∈ rest := by
  induction contents with
  | nil =>
      simp only [List.map_nil, List.sum_nil, List.nil_append] at h
      induction rest with
      | nil => exact h
      | cons first rest ih =>
          rw [dropChars] at h
          split at h
          · exact List.mem_cons_of_mem first (ih (by rwa [Nat.zero_sub] at h))
          · rwa [List.drop_zero, String.ofList_toList] at h
  | cons first contents ih =>
      rw [List.map_cons, List.sum_cons, List.cons_append, dropChars, if_pos (by omega),
        Nat.add_sub_cancel_left] at h
      exact ih h

namespace ClipboardNode

/-- A step of an application, of `set`, or of the monitor. -/
inductive Label where
  /-- An application changes the clipboard. -/
  | copy (content : String)
  /-- The first half of `set`. -/
  | record (content : String)
  /-- The second half of `set`. A `wl-copy` that is missing or fails leaves the clipboard as it is. -/
  | write (ok : Bool)
  /-- The initial read; a read that fails reads nothing. -/
  | readInitial (ok : Bool)
  | storeInitial
  /-- `wl-paste --watch` starts, with or without the present content in its output. -/
  | startWatch (shown : Bool)
  | watchUnavailable
  /-- Whole lines are taken off the output, this many characters, and part of a line is lost. -/
  | readWatch (taken lost : Nat)
  /-- The output has ended: its rest is taken. -/
  | readLast
  | readPoll (ok : Bool)
  | compare
  /-- The receiver may be gone. -/
  | send (ok : Bool)
  /-- The watch fails, or there is nothing left of its output. -/
  | stop

/-- A machine whose clipboard holds what an application has put there. -/
def new (content : String) : ClipboardNode where
  clip := ⟨"", content⟩
  setting := none
  monitor := .start
  output := []
  copied := [content]
  sent := []

/-- The clipboard changes, and a watch that runs shows it. -/
def change (s : ClipboardNode) (content : String) : ClipboardNode :=
  { s with
    clip := s.clip.wlCopy content
    output := if s.monitor.watching ∧ ¬ content.isEmpty then s.output ++ [content] else s.output }

/-- The output that is still to be read. -/
def stream (s : ClipboardNode) : List Char := s.output.flatMap String.toList

/-- `get_clipboard`. -/
def getClipboard (s : ClipboardNode) (ok : Bool) : String := if ok then s.clip.system else ""

/-- What a step makes of the machine. -/
def next (s : ClipboardNode) : Label → Option ClipboardNode
  | .copy content => some { s.change content with copied := s.copied ++ [content] }
  | .record content =>
      match s.setting with
      | none =>
          if content.isEmpty then none
          else some { s with clip := s.clip.record content, setting := some content }
      | some _ => none
  | .write ok =>
      match s.setting with
      | some content => some { (if ok then s.change content else s) with setting := none }
      | none => none
  | .readInitial ok =>
      match s.monitor with
      | .start => some { s with monitor := .initial (s.getClipboard ok) }
      | _ => none
  | .storeInitial =>
      match s.monitor with
      -- stored whatever was recorded in the meantime
      | .initial content => some { s with clip := s.clip.record content, monitor := .stored }
      | _ => none
  | .startWatch shown =>
      match s.monitor with
      | .stored =>
          let system := s.clip.system
          some { s with
            monitor := .waiting .watch
            output := if shown ∧ ¬ system.isEmpty then [system] else [] }
      | _ => none
  | .watchUnavailable =>
      match s.monitor with
      | .stored => some { s with monitor := .waiting .poll }
      | _ => none
  | .readWatch taken lost =>
      match s.monitor with
      | .waiting .watch =>
          let text := s.stream.take taken
          if text.getLast? = some newline ∧ text.length = taken ∧
              newline ∉ (s.stream.drop taken).take lost then
            some { s with
              monitor := .holding .watch (trimEnd text)
              output := dropChars (taken + lost) s.output }
          else none
      | _ => none
  | .readLast =>
      match s.monitor with
      | .waiting .watch =>
          if s.stream = [] then none
          else some { s with monitor := .holding .drained (trimEnd s.stream), output := [] }
      | _ => none
  | .readPoll ok =>
      match s.monitor with
      | .waiting .poll => some { s with monitor := .holding .poll (s.getClipboard ok) }
      | _ => none
  | .compare =>
      match s.monitor with
      | .holding path content =>
          let (changed, clip) := s.clip.takeIfChanged content
          some { s with
            clip := clip
            monitor := if changed then .sending path content else .waiting path }
      | _ => none
  | .send ok =>
      match s.monitor with
      | .sending path content =>
          if ok then some { s with monitor := .waiting path, sent := s.sent ++ [content] }
          else some { s with monitor := .ended }
      | _ => none
  | .stop =>
      match s.monitor with
      | .waiting .poll => none
      | .waiting _ => some { s with monitor := .ended }
      | _ => none

/-- A machine with any content on its clipboard, before its monitor starts. -/
def lts : LTS ClipboardNode Label where
  init s := ∃ content, s = new content
  next := next

/-! ## Steps -/

/-- What a step can do. -/
inductive Step (s : ClipboardNode) : Label → ClipboardNode → Prop where
  | copy (content : String) :
      Step s (.copy content) { s.change content with copied := s.copied ++ [content] }
  | record {content : String} : s.setting = none → content ≠ "" →
      Step s (.record content) { s with clip := s.clip.record content, setting := some content }
  | write {content : String} : s.setting = some content →
      Step s (.write true) { s.change content with setting := none }
  | unwritten {content : String} : s.setting = some content →
      Step s (.write false) { s with setting := none }
  | readInitial {ok : Bool} : s.monitor = .start →
      Step s (.readInitial ok) { s with monitor := .initial (s.getClipboard ok) }
  | storeInitial {content : String} : s.monitor = .initial content →
      Step s .storeInitial { s with clip := s.clip.record content, monitor := .stored }
  | startWatch {shown : Bool} : s.monitor = .stored →
      Step s (.startWatch shown)
        { s with
          monitor := .waiting .watch
          output := if shown ∧ ¬ s.clip.system.isEmpty then [s.clip.system] else [] }
  | watchUnavailable : s.monitor = .stored →
      Step s .watchUnavailable { s with monitor := .waiting .poll }
  | readWatch {taken lost : Nat} : s.monitor = .waiting .watch →
      (s.stream.take taken).getLast? = some newline → (s.stream.take taken).length = taken →
      newline ∉ (s.stream.drop taken).take lost →
      Step s (.readWatch taken lost)
        { s with
          monitor := .holding .watch (trimEnd (s.stream.take taken))
          output := dropChars (taken + lost) s.output }
  | readLast : s.monitor = .waiting .watch → s.stream ≠ [] →
      Step s .readLast { s with monitor := .holding .drained (trimEnd s.stream), output := [] }
  | readPoll {ok : Bool} : s.monitor = .waiting .poll →
      Step s (.readPoll ok) { s with monitor := .holding .poll (s.getClipboard ok) }
  | seen {path : WatchPath} {content : String} : s.monitor = .holding path content →
      content = "" ∨ s.clip.lastContent = content →
      Step s .compare { s with monitor := .waiting path }
  | changed {path : WatchPath} {content : String} : s.monitor = .holding path content →
      content ≠ "" → s.clip.lastContent ≠ content →
      Step s .compare { s with clip := s.clip.record content, monitor := .sending path content }
  | sent {path : WatchPath} {content : String} : s.monitor = .sending path content →
      Step s (.send true) { s with monitor := .waiting path, sent := s.sent ++ [content] }
  | unsent {path : WatchPath} {content : String} : s.monitor = .sending path content →
      Step s (.send false) { s with monitor := .ended }
  | stop {path : WatchPath} : s.monitor = .waiting path → path ≠ .poll →
      Step s .stop { s with monitor := .ended }

theorem step_of_next {s s' : ClipboardNode} {l : Label} (h : s.next l = some s') : s.Step l s' := by
  cases l with
  | copy content =>
      cases h
      exact .copy content
  | record content =>
      simp only [next] at h
      split at h
      · rename_i hsetting
        split at h
        · cases h
        · rename_i hcontent
          cases h
          exact .record hsetting fun hempty => hcontent (by rw [hempty]; rfl)
      · cases h
  | write ok =>
      simp only [next] at h
      split at h
      · rename_i content hsetting
        cases ok with
        | true =>
            cases h
            exact .write hsetting
        | false =>
            cases h
            exact .unwritten hsetting
      · cases h
  | readInitial ok =>
      simp only [next] at h
      split at h
      · rename_i hmonitor
        cases h
        exact .readInitial hmonitor
      · cases h
  | storeInitial =>
      simp only [next] at h
      split at h
      · rename_i content hmonitor
        cases h
        exact .storeInitial hmonitor
      · cases h
  | startWatch shown =>
      simp only [next] at h
      split at h
      · rename_i hmonitor
        cases h
        exact .startWatch hmonitor
      · cases h
  | watchUnavailable =>
      simp only [next] at h
      split at h
      · rename_i hmonitor
        cases h
        exact .watchUnavailable hmonitor
      · cases h
  | readWatch taken lost =>
      simp only [next] at h
      split at h
      · rename_i hmonitor
        split at h
        · rename_i htext
          cases h
          exact .readWatch hmonitor htext.1 htext.2.1 htext.2.2
        · cases h
      · cases h
  | readLast =>
      simp only [next] at h
      split at h
      · rename_i hmonitor
        split at h
        · cases h
        · rename_i hrest
          cases h
          exact .readLast hmonitor hrest
      · cases h
  | readPoll ok =>
      simp only [next] at h
      split at h
      · rename_i hmonitor
        cases h
        exact .readPoll hmonitor
      · cases h
  | compare =>
      simp only [next, ClipboardManager.takeIfChanged] at h
      split at h
      · rename_i path content hmonitor
        cases h
        split
        · rename_i hempty
          exact .seen hmonitor (Or.inl (String.isEmpty_iff.mp hempty))
        · rename_i hcontent
          split
          · rename_i hlast
            exact .seen hmonitor (Or.inr hlast)
          · rename_i hlast
            exact .changed hmonitor (fun hempty => hcontent (by rw [hempty]; rfl)) hlast
      · cases h
  | send ok =>
      simp only [next] at h
      split at h
      · rename_i path content hmonitor
        cases ok with
        | true =>
            cases h
            exact .sent hmonitor
        | false =>
            cases h
            exact .unsent hmonitor
      · cases h
  | stop =>
      simp only [next] at h
      split at h
      · cases h
      · rename_i path hpath hmonitor
        cases h
        exact .stop hmonitor hpath
      · cases h

end ClipboardNode

end Bluecross
