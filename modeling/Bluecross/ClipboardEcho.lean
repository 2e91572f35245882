/-
# Bluecross.ClipboardEcho — when the watcher reports only what applications have copied.

A value that `set` applied must not come back as a local change: the other machines would send it
round again. The watcher recognises it by `last_content`, and that fails in four ways. A look at the
clipboard and its comparison, or the initial read and its store, may stand on two sides of the record
that `set` makes. A look may fall between the record and the write. The write may fail, and an older
value is on the clipboard that is not the recorded one. And what is read off the output of the watch is
joined and cut by its lines and stripped at its end, while the record is not.

`Apart` is a condition on the order of the steps and on the values that are set and copied: the steps of
`set` and those of the watcher are kept apart, a write fails over a local value only, the watch is read
value by value, and a value that it shows ends otherwise than in line breaks, or is a copied one without
them. Under it nothing but local values is sent, in any run.
-/
import Bluecross.ClipboardNode

namespace Bluecross

open Lib (LTS)

/-- The watcher looks at the clipboard itself, if it looks at all. -/
def Monitor.looks : Monitor → Bool
  | waiting path | holding path _ | sending path _ => path = .poll
  | ended => false
  | _ => true

/-- The watcher has no value at hand. -/
def Monitor.Empty : Monitor → Prop
  | initial _ | holding _ _ | sending _ _ => False
  | _ => True

namespace ClipboardNode

variable {s s' : ClipboardNode}

/-- Every value that was sent had been put on the clipboard by an application. -/
def NoEcho (s : ClipboardNode) : Prop := ∀ content ∈ s.sent, content ∈ s.copied

/-- A value that ends otherwise than in a line break. -/
def Bare (content : String) : Prop := content.toList.getLast? ≠ some newline

instance (content : String) : Decidable (Bare content) :=
  inferInstanceAs (Decidable (content.toList.getLast? ≠ some newline))

/-- Line breaks, behind nothing or behind a value that an application has copied. -/
def Known (s : ClipboardNode) (content : String) : Prop :=
  ∃ (text : String) (breaks : Nat), Bare text ∧ (text = "" ∨ text ∈ s.copied) ∧
    content.toList = text.toList ++ List.replicate breaks newline

/-- `set` records nothing between a look at the clipboard and what it is for, nothing is looked at
between a record and its write, and a write fails over a local value, or over itself. The watch is shown
values without line breaks at their end, or known ones; it is read one whole value at a time, what is
lost is whole values, and at its end it has one value, a known one or the last that was recorded. -/
def Apart (s : ClipboardNode) : Label → Prop
  | .copy content => s.monitor.watching = true → Bare content ∨ s.Known content
  | .record _ => ∀ content, s.monitor ≠ .initial content ∧
      ∀ path, path ≠ .watch → s.monitor ≠ .holding path content
  | .write true => ∀ content, s.setting = some content → s.monitor.watching = true →
      Bare content ∨ s.Known content
  | .write false => ∀ content, s.setting = some content → s.monitor.looks = true →
      s.clip.system ∈ s.copied ∨ s.clip.system = content
  | .readInitial ok => s.setting = none ∧ (ok = true ∨ s.clip.system ∈ s.copied)
  | .readPoll _ => s.setting = none
  | .startWatch shown => shown = true → Bare s.clip.system ∨ s.Known s.clip.system
  | .readWatch taken lost => ∃ content contents rest, s.output = content :: (contents ++ rest) ∧
      taken = content.length ∧ lost = (contents.map String.length).sum
  | .readLast => ∃ content, s.output = [content] ∧ (s.Known content ∨ content = s.clip.lastContent)
  | _ => True

theorem apart_record {path : WatchPath} (h : s.monitor = .waiting path) (content : String) :
    s.Apart (.record content) := by
  intro c
  rw [h]
  exact ⟨nofun, fun _ _ => nofun⟩

/-- Line breaks are all that a known value has more than a local one. -/
theorem Known.trimEnd {content : String} (h : s.Known content) :
    trimEnd content.toList = "" ∨ trimEnd content.toList ∈ s.copied := by
  obtain ⟨text, breaks, hbare, hlocal, hcontent⟩ := h
  rwa [hcontent, trimEnd_append hbare breaks]

theorem Bare.trimEnd {content : String} (h : Bare content) : trimEnd content.toList = content := by
  have hnothing := trimEnd_append h 0
  rwa [List.replicate_zero, List.append_nil] at hnothing

theorem Known.mono {content : String} (h : s.Known content)
    (hcopied : ∀ c ∈ s.copied, c ∈ s'.copied) : s'.Known content := by
  obtain ⟨text, breaks, hbare, hlocal, hcontent⟩ := h
  exact ⟨text, breaks, hbare, hlocal.imp_right (hcopied text), hcontent⟩

/-! ## The invariant -/

/-- A value at hand that is not taken for a new one, or may be taken for one. What came off the watch
needs no record to be recognised. -/
def Recognised (s : ClipboardNode) (path : WatchPath) (content : String) : Prop :=
  content = "" ∨ content ∈ s.copied ∨ (path ≠ .watch ∧ content = s.clip.lastContent)

/-- What holds between the steps of a run whose steps keep apart. -/
structure Settled (s : ClipboardNode) : Prop where
  /-- A value that is still to be written is the last one seen. -/
  recorded : s.monitor.looks = true → ∀ content, s.setting = some content →
    s.clip.lastContent = content
  /-- What is on the clipboard was copied there or is recorded. -/
  system : s.monitor.looks = true → s.setting = none →
    s.clip.system ∈ s.copied ∨ s.clip.system = s.clip.lastContent
  initial : ∀ content, s.monitor = .initial content →
    s.setting = none ∧ (s.clip.system ∈ s.copied ∨ s.clip.system = content)
  held : ∀ path content, s.monitor = .holding path content → s.Recognised path content
  polled : ∀ content, s.monitor = .holding .poll content →
    s.setting = none ∧ (content = "" ∨ s.clip.system ∈ s.copied ∨ s.clip.system = content)
  sending : ∀ path content, s.monitor = .sending path content → content ∈ s.copied
  unread : ∀ content ∈ s.output, Bare content ∨ s.Known content
  noEcho : s.NoEcho

theorem settled_new (content : String) : Settled (new content) := by
  refine ⟨nofun, ?_, nofun, nofun, nofun, nofun, nofun, nofun⟩
  intro _ _
  exact Or.inl (List.mem_singleton_self content)

/-- A change adds its content to what is unread, or nothing. -/
theorem Settled.unread_change (h : Settled s) {content : String}
    (hshown : s.monitor.watching = true → Bare content ∨ s.Known content) :
    ∀ c ∈ (s.change content).output, Bare c ∨ s.Known c := by
  intro c hc
  unfold change at hc
  split at hc
  · rename_i hwatching
    rcases List.mem_append.mp hc with hold | hnew
    · exact h.unread c hold
    · rw [List.mem_singleton.mp hnew]
      exact hshown hwatching.1
  · exact h.unread c hc

/-- A copy puts a local value on the clipboard. -/
theorem Settled.copy (h : Settled s) {content : String} (hapart : s.Apart (.copy content)) :
    Settled { s.change content with copied := s.copied ++ [content] } := by
  have hkept : ∀ c ∈ s.copied, c ∈ s.copied ++ [content] :=
    fun _ hc => List.mem_append_left _ hc
  have hnew : content ∈ s.copied ++ [content] :=
    List.mem_append_right _ (List.mem_singleton_self content)
  refine ⟨h.recorded, fun _ _ => Or.inl hnew, ?_, ?_, ?_, ?_, ?_, ?_⟩
  · intro c hc
    exact ⟨(h.initial c hc).1, Or.inl hnew⟩
  · intro path c hc
    exact (h.held path c hc).imp_right (Or.imp_left (hkept c))
  · intro c hc
    exact ⟨(h.polled c hc).1, Or.inr (Or.inl hnew)⟩
  · intro path c hc
    exact hkept c (h.sending path c hc)
  · intro c hc
    exact (h.unread_change hapart c hc).imp_right fun hknown => hknown.mono hkept
  · intro c hc
    exact hkept c (h.noEcho c hc)

theorem Settled.record (h : Settled s) {content : String} (hapart : s.Apart (.record content)) :
    Settled { s with clip := s.clip.record content, setting := some content } := by
  refine ⟨?_, nofun, ?_, ?_, ?_, h.sending, h.unread, h.noEcho⟩
  · intro _ c hc
    exact Option.some.inj hc
  · intro c hc
    exact absurd hc (hapart c).1
  · intro path c hc
    rcases h.held path c hc with hempty | hlocal | ⟨hpath, _⟩
    · exact Or.inl hempty
    · exact Or.inr (Or.inl hlocal)
    · exact absurd hc ((hapart c).2 path hpath)
  · intro c hc
    exact absurd hc ((hapart c).2 .poll nofun)

/-- What is written is what was recorded. -/
theorem Settled.write (h : Settled s) {content : String} (hsetting : s.setting = some content)
    (hapart : s.Apart (.write true)) : Settled { s.change content with setting := none } := by
  have hbusy : s.setting ≠ none := by
    rw [hsetting]
    nofun
  refine ⟨nofun, ?_, ?_, h.held, ?_, h.sending, h.unread_change (hapart content hsetting), h.noEcho⟩
  · intro hlooks _
    exact Or.inr (h.recorded hlooks content hsetting).symm
  · intro c hc
    exact absurd (h.initial c hc).1 hbusy
  · intro c hc
    exact absurd (h.polled c hc).1 hbusy

/-- What stays on the clipboard when the write fails is a local value, or the recorded one. -/
theorem Settled.unwritten (h : Settled s) {content : String} (hsetting : s.setting = some content)
    (hapart : s.Apart (.write false)) : Settled { s with setting := none } := by
  have hbusy : s.setting ≠ none := by
    rw [hsetting]
    nofun
  refine ⟨nofun, ?_, ?_, h.held, ?_, h.sending, h.unread, h.noEcho⟩
  · intro hlooks _
    rcases hapart content hsetting hlooks with hlocal | hsame
    · exact Or.inl hlocal
    · exact Or.inr (hsame.trans (h.recorded hlooks content hsetting).symm)
  · intro c hc
    exact absurd (h.initial c hc).1 hbusy
  · intro c hc
    exact absurd (h.polled c hc).1 hbusy

/-- A new value that is recorded is a local one, and is still on the clipboard or gave way to one. -/
theorem Settled.changed (h : Settled s) {path : WatchPath} {content : String}
    (hmonitor : s.monitor = .holding path content) (hcontent : content ≠ "")
    (hlast : s.clip.lastContent ≠ content) :
    Settled { s with clip := s.clip.record content, monitor := .sending path content } := by
  have hlocal : content ∈ s.copied := by
    rcases h.held path content hmonitor with hempty | hlocal | ⟨_, hseen⟩
    · exact absurd hempty hcontent
    · exact hlocal
    · exact absurd hseen.symm hlast
  have hpoll : path = .poll → s.setting = none ∧
      (content = "" ∨ s.clip.system ∈ s.copied ∨ s.clip.system = content) := by
    rintro rfl
    exact h.polled content hmonitor
  refine ⟨?_, ?_, nofun, nofun, nofun, ?_, h.unread, h.noEcho⟩
  · intro hlooks c hc
    have hidle := (hpoll (of_decide_eq_true hlooks)).1
    rw [hidle] at hc
    cases hc
  · intro hlooks _
    exact (hpoll (of_decide_eq_true hlooks)).2.resolve_left hcontent
  · rintro p c heq
    cases heq
    exact hlocal

/-- The initial read finds a local value, or what is on the clipboard. -/
theorem Settled.readInitial (h : Settled s) {ok : Bool} (hmonitor : s.monitor = .start)
    (hapart : s.Apart (.readInitial ok)) :
    Settled { s with monitor := .initial (s.getClipboard ok) } := by
  have hlooks : s.monitor.looks = true := by
    rw [hmonitor]
    rfl
  refine ⟨fun _ => h.recorded hlooks, fun _ => h.system hlooks, ?_, nofun, nofun, nofun, h.unread,
    h.noEcho⟩
  rintro c heq
  cases heq
  refine ⟨hapart.1, ?_⟩
  rcases hapart.2 with rfl | hlocal
  · exact Or.inr rfl
  · exact Or.inl hlocal

theorem Settled.storeInitial (h : Settled s) {content : String}
    (hmonitor : s.monitor = .initial content) :
    Settled { s with clip := s.clip.record content, monitor := .stored } := by
  obtain ⟨hidle, hsystem⟩ := h.initial content hmonitor
  refine ⟨?_, fun _ _ => hsystem, nofun, nofun, nofun, nofun, h.unread, h.noEcho⟩
  intro _ c hc
  rw [hidle] at hc
  cases hc

/-- A polling read finds nothing, or what is on the clipboard. -/
theorem Settled.readPoll (h : Settled s) {ok : Bool} (hmonitor : s.monitor = .waiting .poll)
    (hapart : s.Apart (.readPoll ok)) :
    Settled { s with monitor := .holding .poll (s.getClipboard ok) } := by
  have hlooks : s.monitor.looks = true := by
    rw [hmonitor]
    rfl
  have hread : s.getClipboard ok = "" ∨ s.getClipboard ok = s.clip.system := by
    cases ok with
    | false => exact Or.inl rfl
    | true => exact Or.inr rfl
  refine ⟨fun _ => h.recorded hlooks, fun _ => h.system hlooks, nofun, ?_, ?_, nofun, h.unread,
    h.noEcho⟩
  · rintro path c heq
    cases heq
    rcases hread with hempty | hsystem
    · exact Or.inl hempty
    · show s.Recognised .poll (s.getClipboard ok)
      rw [hsystem]
      rcases h.system hlooks hapart with hlocal | hlast
      · exact Or.inr (Or.inl hlocal)
      · exact Or.inr (Or.inr ⟨nofun, hlast⟩)
  · rintro c heq
    cases heq
    refine ⟨hapart, ?_⟩
    rcases hread with hempty | hsystem
    · exact Or.inl hempty
    · exact Or.inr (Or.inr hsystem.symm)

/-- A recognised value is taken off the output of the watch. -/
theorem Settled.take (h : Settled s) (path : WatchPath) (hpath : path ≠ .poll) {content : String}
    (hcontent : s.Recognised path content) {output : List String}
    (hunread : ∀ c ∈ output, c ∈ s.output) :
    Settled { s with monitor := .holding path content, output := output } := by
  refine ⟨?_, ?_, nofun, ?_, ?_, nofun, fun c hc => h.unread c (hunread c hc), h.noEcho⟩
  · intro hlooks
    exact absurd (of_decide_eq_true hlooks) hpath
  · intro hlooks
    exact absurd (of_decide_eq_true hlooks) hpath
  · rintro p c heq
    cases heq
    exact hcontent
  · rintro c heq
    cases heq
    exact absurd rfl hpath

/-- A whole value that ends in a line break is a known one, and what is left are whole values. -/
theorem Settled.readWatch (h : Settled s) {taken lost : Nat}
    (hline : (s.stream.take taken).getLast? = some newline)
    (hapart : s.Apart (.readWatch taken lost)) :
    Settled { s with
      monitor := .holding .watch (trimEnd (s.stream.take taken))
      output := dropChars (taken + lost) s.output } := by
  obtain ⟨content, contents, rest, houtput, rfl, rfl⟩ := hapart
  have htext : s.stream.take content.length = content.toList := by
    unfold stream
    rw [houtput, List.flatMap_cons, ← String.length_toList, List.take_left]
  rw [htext] at hline ⊢
  refine h.take .watch nofun ?_ ?_
  · rcases h.unread content (by rw [houtput]; exact List.mem_cons_self) with hbare | hknown
    · exact absurd hline hbare
    · exact hknown.trimEnd.imp_right Or.inl
  · intro c hc
    rw [houtput] at hc ⊢
    have hrest : c ∈ rest := @mem_of_mem_dropChars c (content :: contents) rest hc
    exact List.mem_cons_of_mem content (List.mem_append_right contents hrest)

/-- The last value of the output is a known one, or is what was recorded last. -/
theorem Settled.readLast (h : Settled s) (hapart : s.Apart .readLast) :
    Settled { s with monitor := .holding .drained (trimEnd s.stream), output := [] } := by
  obtain ⟨content, houtput, hlast⟩ := hapart
  have htext : s.stream = content.toList := by
    unfold stream
    rw [houtput, List.flatMap_singleton]
  have hrecognised : s.Recognised .drained (trimEnd content.toList) := by
    rcases hlast with hknown | hrecorded
    · exact hknown.trimEnd.imp_right Or.inl
    · rcases h.unread content (by rw [houtput]; exact List.mem_singleton_self content) with
        hbare | hknown
      · rw [hbare.trimEnd]
        exact Or.inr (Or.inr ⟨nofun, hrecorded⟩)
      · exact hknown.trimEnd.imp_right Or.inl
  rw [htext]
  exact h.take .drained nofun hrecognised fun _ hc => absurd hc List.not_mem_nil

/-- The watcher is left without a value, and may have sent a local one. -/
theorem Settled.rest (h : Settled s) (monitor : Monitor) (hempty : monitor.Empty)
    (hlooks : monitor.looks = true → s.monitor.looks = true) {output sent : List String}
    (hunread : ∀ c ∈ output, Bare c ∨ s.Known c) (hsent : ∀ content ∈ sent, content ∈ s.copied) :
    Settled { s with monitor := monitor, output := output, sent := sent } := by
  refine ⟨fun hlook => h.recorded (hlooks hlook), fun hlook => h.system (hlooks hlook),
    ?_, ?_, ?_, ?_, hunread, hsent⟩
  all_goals
    intros
    subst_vars
    cases hempty

/-- The watch starts with what is on the clipboard in its output, or nothing. -/
theorem Settled.startWatch (h : Settled s) {shown : Bool} (hapart : s.Apart (.startWatch shown)) :
    Settled { s with
      monitor := .waiting .watch
      output := if shown ∧ ¬ s.clip.system.isEmpty then [s.clip.system] else [] } := by
  refine h.rest (.waiting .watch) trivial nofun ?_ h.noEcho
  intro c hc
  split at hc
  · rename_i hshown
    rw [List.mem_singleton.mp hc]
    exact hapart hshown.1
  · cases hc

/-- The value that was sent is a local one. -/
theorem Settled.noEcho_sent (h : Settled s) {path : WatchPath} {content : String}
    (hmonitor : s.monitor = .sending path content) :
    ∀ c ∈ s.sent ++ [content], c ∈ s.copied := by
  intro c hc
  rcases List.mem_append.mp hc with hold | hlast
  · exact h.noEcho c hold
  · rw [List.mem_singleton.mp hlast]
    exact h.sending path content hmonitor

theorem Settled.step {l : Label} (h : Settled s) (hapart : s.Apart l) (hstep : s.Step l s') :
    Settled s' := by
  cases hstep with
  | copy => exact h.copy hapart
  | record => exact h.record hapart
  | write hsetting => exact h.write hsetting hapart
  | unwritten hsetting => exact h.unwritten hsetting hapart
  | readInitial hmonitor => exact h.readInitial hmonitor hapart
  | storeInitial hmonitor => exact h.storeInitial hmonitor
  | startWatch => exact h.startWatch hapart
  | readPoll hmonitor => exact h.readPoll hmonitor hapart
  | changed hmonitor hcontent hlast => exact h.changed hmonitor hcontent hlast
  | readWatch _ hline => exact h.readWatch hline hapart
  | readLast => exact h.readLast hapart
  -- the others leave the watcher without a value
  | watchUnavailable hmonitor =>
      refine h.rest (.waiting .poll) trivial (fun _ => ?_) h.unread h.noEcho
      rw [hmonitor]
      rfl
  | @seen path _ hmonitor =>
      refine h.rest (.waiting path) trivial (fun hlook => ?_) h.unread h.noEcho
      rw [hmonitor]
      exact hlook
  | @sent path _ hmonitor =>
      refine h.rest (.waiting path) trivial (fun hlook => ?_) h.unread (h.noEcho_sent hmonitor)
      rw [hmonitor]
      exact hlook
  | unsent => exact h.rest .ended trivial nofun h.unread h.noEcho
  | stop => exact h.rest .ended trivial nofun h.unread h.noEcho

/-- In every run whose steps keep apart, the watcher sends local values only. -/
theorem no_echo (s : ClipboardNode) (hreach : lts.Reach Apart s) : s.NoEcho := by
  have hsettled : Settled s := by
    refine hreach.invariant ?_ ?_
    · rintro _ ⟨content, rfl⟩
      exact settled_new content
    · intro s l s' hs hapart hnext
      exact hs.step hapart (step_of_next hnext)
  exact hsettled.noEcho

/-- The watcher polls. A value is applied and seen, another is copied, and is seen and sent although a
third could not be written meanwhile. -/
def polled : List Label :=
  [.readInitial true, .storeInitial, .watchUnavailable, .record "a\n", .write true, .readPoll true,
    .compare, .copy "b", .record "c", .write false, .readPoll true, .compare, .send true]

/-- The watcher follows the watch. It reads a value that is a line break, a copied one that is sent, and,
when the output has ended, one that was applied. -/
def followed : List Label :=
  [.readInitial true, .storeInitial, .startWatch false, .record "\n", .write true, .readWatch 1 0,
    .compare, .copy "b\n", .readWatch 2 0, .compare, .send true, .record "c", .write true, .readLast,
    .compare, .stop]

theorem no_echo_polled :
    (∃ s, lts.exec (new "") polled = some s ∧ s.sent = ["b"] ∧ s.clip.lastContent = "b" ∧ s.NoEcho) ∧
      ∃ s, lts.exec (new "b") followed = some s ∧ s.sent = ["b"] ∧ s.clip.lastContent = "c" ∧
        s.NoEcho := by
  constructor
  · refine ⟨_, rfl, rfl, rfl, ?_⟩
    refine no_echo _ ⟨new "", polled, ⟨"", rfl⟩, LTS.steps_of_exec rfl ?_⟩
    refine ⟨⟨rfl, Or.inl rfl⟩, trivial, trivial, apart_record rfl _, ?_, rfl, trivial, ?_,
      apart_record rfl _, ?_, rfl, trivial, trivial, trivial⟩
    · intro _ _ hwatching
      cases hwatching
    · intro hwatching
      cases hwatching
    · intro _ _ _
      exact Or.inl (by decide)
  · refine ⟨_, rfl, rfl, rfl, ?_⟩
    refine no_echo _ ⟨new "b", followed, ⟨"b", rfl⟩, LTS.steps_of_exec rfl ?_⟩
    refine ⟨⟨rfl, Or.inl rfl⟩, trivial, ?_, apart_record rfl _, ?_, ⟨"\n", [], [], rfl, rfl, rfl⟩,
      trivial, ?_, ⟨"b\n", [], [], rfl, rfl, rfl⟩, trivial, trivial, apart_record rfl _, ?_,
      ⟨"c", rfl, Or.inr rfl⟩, trivial, trivial, trivial⟩
    · intro hshown
      cases hshown
    · rintro _ ⟨⟩ _
      exact Or.inr ⟨"", 1, by decide, Or.inl rfl, rfl⟩
    · intro _
      exact Or.inr ⟨"b", 1, by decide, Or.inr (by decide), rfl⟩
    · rintro _ ⟨⟩ _
      exact Or.inl (by decide)

/-- A value that ends in a line break is applied, and the watcher reads it off the watch. -/
def watched : List Label :=
  [.readInitial true, .storeInitial, .startWatch false, .record "a\n", .write true,
    .readWatch 2 0, .compare, .send true]

/-- The value that `set` recorded comes back without its line break. -/
theorem trimmed_value_echoed :
    ¬ ∀ s : ClipboardNode, lts.Reach LTS.anyStep s → s.NoEcho := by
  intro hall
  obtain ⟨s, hrun, hsent, hcopied⟩ : ∃ s, lts.exec (new "") watched = some s ∧ s.sent = ["a"] ∧
      s.copied = [""] := ⟨_, rfl, rfl, rfl⟩
  have hecho := hall s ⟨new "", watched, ⟨"", rfl⟩,
    LTS.steps_of_exec hrun (LTS.guarded_anyStep _ _)⟩ "a"
  rw [hsent, hcopied] at hecho
  exact absurd (hecho (List.mem_singleton_self "a")) (by decide)

end ClipboardNode

end Bluecross
