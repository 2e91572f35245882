/-
# Bluecross.DaemonControl — `bluecross ctl` beside the daemons.

Any number of commands start, stop and restart the daemons of a PID file and report on them, beside each
other and beside the daemons. A command is a sequence of calls of `read_pid`; `stop_daemon` sends
SIGTERM, polls up to fifty times for the process to be gone, sends SIGKILL if it is not, and removes the
file. A command has a pid of its own, under which the daemons see some other program. A signal does
nothing by itself: what a process does about it (`finish`, `crash`) it does in a step of its own.

The commands read the file as the daemons do and remove it on the same grounds, so the condition under
which it stays truthful is the one of the daemons, with the commands' removals among the changes
(`commands_truthful_iff`). Under this condition what a command prints is true of every daemon that had
written the file when the command looked, and no other one of these gets its signals (`reports_true`).
-/
import Bluecross.Daemon

namespace Bluecross

open Lib (LTS)

/-- The commands about a daemon. With `-f` a daemon is started in the foreground. -/
inductive Command where
  | start (foreground : Bool)
  | stop
  | restart (foreground : Bool)
  | status
  deriving DecidableEq, Repr

/-- What a command prints, up to wording. -/
inductive Report where
  | alreadyRunning (pid : Pid)
  | started (pid : Pid)
  | failedToStart
  | notRunning
  | stopping (pid : Pid)
  | stopped
  | failedToStop
  | running (pid : Pid)
  | isStopped
  deriving DecidableEq, Repr

/-- The calls of `read_pid`. A stop within `cmd_restart` has a start after it. -/
inductive Query where
  /-- `is_running` in `cmd_restart`. -/
  | restart (foreground : Bool)
  /-- `is_running` in `cmd_stop`, and the pid to print. -/
  | stop (after : Option Bool)
  | stopPid (after : Option Bool)
  | stopDaemon (after : Option Bool)
  /-- `is_running` at the beginning of `cmd_start`, and the pid to print. -/
  | start (foreground : Bool)
  | runningPid
  /-- `is_running` at the end of `cmd_start`, and the pid to print. -/
  | started
  | startedPid
  | status
  deriving DecidableEq, Repr

/-- Where a command is. `covered` is the number of writes that its last look has covered. -/
inductive CtlPhase where
  | ended
  /-- In `read_pid`, as a daemon is. -/
  | looking (query : Query)
  | reading (query : Query) (covered : Nat)
  | probing (query : Query) (covered : Nat) (named : Pid)
  | removing (query : Query) (covered : Nat)
  /-- Nobody runs, and a daemon is about to be started. -/
  | launching (foreground : Bool)
  /-- `stop_daemon` is about to send SIGTERM. -/
  | terminating (after : Option Bool) (covered : Nat) (named : Pid)
  | polling (after : Option Bool) (covered : Nat) (named : Pid) (left : Nat)
  /-- `stop_daemon` is about to remove the file; with the process it has killed, if it has. -/
  | clearing (after : Option Bool) (covered : Nat) (killed : Option Pid)
  deriving DecidableEq, Repr

/-- Where a command starts. -/
def Command.begin : Command → CtlPhase
  | start foreground => .looking (.start foreground)
  | stop => .looking (.stop none)
  | restart foreground => .looking (.restart foreground)
  | status => .looking .status

/-- After `cmd_stop`. -/
def CtlPhase.goOn : Option Bool → CtlPhase
  | none => .ended
  | some foreground => .looking (.start foreground)

/-- What a command does with the answer of `read_pid`, and what it prints. -/
def Query.answered (covered : Nat) (found : Option Pid) : Query → CtlPhase × List Report
  | restart foreground =>
      if found.isSome then (.looking (.stop (some foreground)), [])
      else (.looking (.start foreground), [])
  | stop after =>
      if found.isSome then (.looking (.stopPid after), []) else (.goOn after, [.notRunning])
  | stopPid after => (.looking (.stopDaemon after), [.stopping (found.getD 0)])
  | stopDaemon after =>
      match found with
      | some pid => (.terminating after covered pid, [])
      | none => (.goOn after, [.failedToStop])
  | start foreground =>
      if found.isSome then (.looking .runningPid, []) else (.launching foreground, [])
  | runningPid => (.ended, [.alreadyRunning (found.getD 0)])
  | started => if found.isSome then (.looking .startedPid, []) else (.ended, [.failedToStart])
  | startedPid => (.ended, [.started (found.getD 0)])
  | status =>
      match found with
      | some pid => (.ended, [.running pid])
      | none => (.ended, [.isStopped])

/-- A step of a command: each is one call of the operating system. -/
inductive CtlStep where
  | run (command : Command)
  | look (ok : Bool)
  | read (ok : Bool)
  | probe (permitted : Bool)
  | remove (ok : Bool)
  /-- `cmd.spawn()`: a daemon process starts. -/
  | spawn (q : Pid)
  /-- `cmd.exec()`: the command becomes a daemon. -/
  | exec
  /-- `current_exe`, `spawn` or `exec` fails. -/
  | failLaunch
  /-- SIGTERM. -/
  | terminate
  | poll (permitted : Bool)
  /-- SIGKILL. -/
  | kill
  | clear (ok : Bool)
  | abort
  deriving DecidableEq, Repr

/-- The daemons and the commands, both under their pids. What has been printed is kept, the last line
first, each with the writes that the look behind it had covered. -/
structure Controlled where
  daemons : Daemons
  phases : Pid → CtlPhase
  printed : List (Nat × Report)

namespace Controlled

/-- A step of a daemon or of a command. -/
inductive Label where
  | daemon (l : Daemons.Label)
  | ctl (p : Pid) (step : CtlStep)
  deriving DecidableEq, Repr

/-- A command goes on, or ends, and its process with it. -/
def move (s : Controlled) (p : Pid) (v : CtlPhase) : Controlled :=
  { s with
    daemons := if v = .ended then s.daemons.setProc p .absent else s.daemons
    phases := Function.update s.phases p v }

/-- Lines are printed, with the writes that the command had covered. -/
def print (s : Controlled) (covered : Nat) (reports : List Report) : Controlled :=
  { s with printed := reports.map (covered, ·) ++ s.printed }

/-- `read_pid` answers. -/
def answer (s : Controlled) (p : Pid) (query : Query) (covered : Nat) (found : Option Pid) :
    Controlled :=
  (s.print covered (query.answered covered found).2).move p (query.answered covered found).1

/-- Other daemons, under the same commands. -/
def setDaemons (s : Controlled) (d : Daemons) : Controlled := { s with daemons := d }

/-- `fs::remove_file`, whose result nobody looks at. -/
def removeFile (s : Controlled) (ok : Bool) : Controlled :=
  s.setDaemons (if ok then s.daemons.setFile .missing else s.daemons)

/-- What a step of a command makes of the system. -/
def nextCtl (s : Controlled) (p : Pid) (step : CtlStep) : Option Controlled :=
  match s.phases p, step with
  | .ended, .run command =>
      match s.daemons.procs p with
      | .absent => some ((s.setDaemons (s.daemons.setProc p .foreign)).move p command.begin)
      | _ => none
  | .looking query, .look ok =>
      if s.daemons.file = .missing then some (s.answer p query s.daemons.writes none)
      else if ok then some (s.move p (.reading query s.daemons.writes))
      else some (s.answer p query 0 none)
  | .reading query covered, .read ok =>
      if ok then
        match s.daemons.file with
        | .pid named => some (s.move p (.probing query covered named))
        | _ => some (s.answer p query covered none)
      else some (s.answer p query 0 none)
  | .probing query covered named, .probe permitted =>
      if s.daemons.answers named permitted then some (s.answer p query covered (some named))
      else some (s.move p (.removing query covered))
  | .removing query covered, .remove ok => some ((s.removeFile ok).answer p query covered none)
  | .launching foreground, .spawn q =>
      if foreground then none
      else (s.daemons.next (.launch q)).map fun d => (s.setDaemons d).move p (.looking .started)
  | .launching foreground, .exec =>
      if foreground then some ((s.move p .ended).setDaemons (s.daemons.setProc p .looking)) else none
  | .launching _, .failLaunch => some (s.move p .ended)
  | .terminating after covered named, .terminate => some (s.move p (.polling after covered named 50))
  | .polling after covered named (left + 1), .poll permitted =>
      if s.daemons.answers named permitted then some (s.move p (.polling after covered named left))
      else some (s.move p (.clearing after covered none))
  | .polling after covered named 0, .kill => some (s.move p (.clearing after covered (some named)))
  | .clearing after covered _, .clear ok =>
      some (((s.removeFile ok).print covered [.stopped]).move p (.goOn after))
  | .ended, .abort => none
  | _, .abort => some (s.move p .ended)
  | _, _ => none

/-- A step of a daemon, or of another program that is no command, or of a command. -/
def next (s : Controlled) : Label → Option Controlled
  | .daemon l =>
      match l with
      | .foreign p false =>
          if s.phases p = .ended then (s.daemons.next l).map s.setDaemons else none
      | _ => (s.daemons.next l).map s.setDaemons
  | .ctl p step => s.nextCtl p step

/-- At first neither daemon nor command runs; the file may have been left by an earlier daemon. -/
def lts : LTS Controlled Label where
  init s := Daemons.lts.init s.daemons ∧ (∀ p, s.phases p = .ended) ∧ s.printed = []
  next := next

end Controlled

/-! ## What an answer of `read_pid` says about the daemons -/

namespace Daemons

variable {s t : Daemons} {n : Nat} {p : Pid} {v : Proc}

/-- The daemons in service that had written the file by the write number `n` are no other than `p`. -/
def OnlyServes (s : Daemons) (n : Nat) (p : Pid) : Prop :=
  ∀ q written, s.procs q = .serving written → written ≤ n → p = q

/-- No daemon in service had written the file by the write number `n`. -/
def NoneServes (s : Daemons) (n : Nat) : Prop :=
  ∀ q written, s.procs q = .serving written → n < written

/-- An answer of `read_pid` is right about the first `n` writes. -/
def Found (s : Daemons) (n : Nat) : Option Pid → Prop
  | some p => s.procs p ≠ .absent ∧ s.OnlyServes n p
  | none => s.NoneServes n

/-- Whoever is in service in `t` was so in `s` already, or has written the file since. -/
structure Follows (s t : Daemons) : Prop where
  writes : s.writes ≤ t.writes
  serving : ∀ q written, t.procs q = .serving written →
    s.procs q = .serving written ∨ s.writes < written

theorem NoneServes.follows (h : s.NoneServes n) (hn : n ≤ s.writes) (hfollows : Follows s t) :
    t.NoneServes n := by
  intro q written hq
  rcases hfollows.serving q written hq with hserves | hlater
  · exact h q written hserves
  · omega

theorem OnlyServes.follows (h : s.OnlyServes n p) (hn : n ≤ s.writes) (hfollows : Follows s t) :
    t.OnlyServes n p := by
  intro q written hq hle
  rcases hfollows.serving q written hq with hserves | hlater
  · exact h q written hserves hle
  · omega

/-- The file names whoever is in service. -/
theorem Clear.onlyServes (h : Clear s) (hfile : s.file = .pid p) (n : Nat) : s.OnlyServes n p :=
  fun q written hq _ => PidFile.pid.inj (hfile.symm.trans (h.recorded q written hq))

theorem Clear.noneServes (h : Clear s) (hfile : ∀ q, s.file ≠ .pid q) (n : Nat) : s.NoneServes n :=
  fun q written hq => absurd (h.recorded q written hq) (hfile q)

theorem Clear.noneServes_zero (h : Clear s) : s.NoneServes 0 :=
  fun q written hq => (h.counted q written hq).1

/-- The process named does not answer, so it is not in service, and no other one is. -/
theorem OnlyServes.none (h : s.OnlyServes n p) {permitted : Bool}
    (hdead : ¬ s.answers p permitted = true) : s.NoneServes n := by
  intro q written hq
  by_contra hle
  obtain rfl := h q written hq (by omega)
  exact hdead (by rw [answers, hq])

theorem OnlyServes.found (h : s.OnlyServes n p) {permitted : Bool}
    (halive : s.answers p permitted = true) : s.Found n (some p) := by
  refine ⟨fun habsent => ?_, h⟩
  simp [answers, habsent] at halive

theorem Follows.refl (s : Daemons) : Follows s s := ⟨Nat.le_refl _, fun _ _ => Or.inl⟩

theorem Follows.setFile (h : Follows s t) (file : PidFile) : Follows s (t.setFile file) :=
  ⟨h.writes, h.serving⟩

theorem Follows.setProc (h : Follows s t) (hv : ∀ written, v ≠ .serving written) :
    Follows s (t.setProc p v) :=
  ⟨h.writes, fun q written hq => h.serving q written (serving_of_setProc hv hq).2⟩

/-- A process goes into service only with a write of its own. -/
theorem follows_of_next {l : Label} (hnext : s.next l = some t) : Follows s t := by
  cases l with
  | write p =>
      simp only [next] at hnext
      split at hnext
      · cases hnext
        refine ⟨Nat.le_succ _, fun q written hq => ?_⟩
        have hq' : Function.update s.procs p (.serving (s.writes + 1)) q = .serving written := hq
        by_cases hqp : q = p
        · subst hqp
          simp only [Function.update_self, Proc.serving.injEq] at hq'
          omega
        · rw [Function.update_of_ne hqp] at hq'
          exact Or.inl hq'
      · cases hnext
  | _ =>
      simp only [next] at hnext
      repeat' split at hnext
      all_goals cases hnext
      all_goals first
        | exact (Follows.refl s).setProc (by simp)
        | exact ((Follows.refl s).setFile _).setProc (by simp)
        | exact ((Follows.refl s).setProc (by simp)).setProc (by simp)

/-- A step of the daemons leaves a process of another program alone, unless it is the end of it. -/
theorem foreign_of_next {l : Label} (hnext : s.next l = some t) (hl : l ≠ .foreign p false)
    (hp : s.procs p = .foreign) : t.procs p = .foreign := by
  have hset : ∀ {d : Daemons} {q : Pid} {u v : Proc}, d.procs p = .foreign → s.procs q = u →
      u ≠ .foreign → (d.setProc q v).procs p = .foreign := by
    intro d q u v hd hq hu
    have hne : p ≠ q := by
      rintro rfl
      exact hu (hq.symm.trans hp)
    rw [setProc_procs_of_ne hne, hd]
  cases l with
  | foreign q starts =>
      simp only [next] at hnext
      repeat' split at hnext
      all_goals cases hnext
      · rename_i hq _
        exact hset hp hq (by simp)
      · rename_i hq hstarts
        have hne : p ≠ q := by
          rintro rfl
          simp [hstarts] at hl
        rw [setProc_procs_of_ne hne, hp]
  | _ =>
      simp only [next] at hnext
      repeat' split at hnext
      all_goals cases hnext
      -- a process that moves on was a daemon, or none
      all_goals first
        | exact hset hp ‹s.procs _ = _› (by simp)
        | exact hset (hset hp ‹s.procs _ = Proc.starting _› (by simp)) ‹s.procs _ = Proc.absent› (by simp)
        | exact hset hp rfl ‹_›

end Daemons

/-- What a printed line says is so of the daemons that had written the file by the write number `n`. A
pid is printed as 0 when the daemon had ended before it was asked for. -/
def Report.True (d : Daemons) (n : Nat) : Report → Prop
  | running pid => d.Found n (some pid)
  | alreadyRunning pid | started pid | stopping pid => d.Found n (some pid) ∨ pid = 0 ∧ d.Found n none
  | failedToStart | notRunning | stopped | failedToStop | isStopped => d.Found n none

namespace CtlPhase

variable {d d' : Daemons} {v : CtlPhase} {n : Nat} {p : Pid}

/-- The writes that have been seen. -/
def covered : CtlPhase → Option Nat
  | reading _ n | probing _ n _ | removing _ n | terminating _ n _ | polling _ n _ _ | clearing _ n _ =>
      some n
  | _ => none

/-- Whom the file has named, after these writes. -/
def names : CtlPhase → Option (Nat × Pid)
  | probing _ n p | terminating _ n p | polling _ n p _ => some (n, p)
  | clearing _ n killed => killed.map (n, ·)
  | _ => none

/-- The writes whose daemons have been found to be gone. -/
def cleared : CtlPhase → Option Nat
  | removing _ n | clearing _ n none => some n
  | _ => none

theorem covered_of_names (h : v.names = some (n, p)) : v.covered = some n := by
  cases v <;> simp_all [names, covered]

theorem covered_of_cleared (h : v.cleared = some n) : v.covered = some n := by
  rcases v with _ | _ | _ | _ | _ | _ | _ | _ | ⟨_, _, _ | killed⟩ <;> simp_all [cleared, covered]

/-- What a command goes by is so. -/
structure Clear (d : Daemons) (v : CtlPhase) : Prop where
  seen : ∀ n, v.covered = some n → n ≤ d.writes
  named : ∀ n p, v.names = some (n, p) → d.OnlyServes n p
  missed : ∀ n, v.cleared = some n → d.NoneServes n

theorem Clear.follows (h : v.Clear d) (hfollows : d.Follows d') : v.Clear d' where
  seen n hn := Nat.le_trans (h.seen n hn) hfollows.writes
  named n p hp := (h.named n p hp).follows (h.seen n (covered_of_names hp)) hfollows
  missed n hn := (h.missed n hn).follows (h.seen n (covered_of_cleared hn)) hfollows

theorem clear_of_blank (h : v.covered = none) : v.Clear d where
  seen n hn := by simp [h] at hn
  named n p hp := by simp [covered_of_names hp] at h
  missed n hn := by simp [covered_of_cleared hn] at h

theorem covered_goOn (after : Option Bool) : (goOn after).covered = none := by
  cases after <;> rfl

end CtlPhase

namespace Query

variable {d : Daemons} {n : Nat} {found : Option Pid}

/-- A command goes on with an answer that is right. -/
theorem clear_answered (query : Query) (hn : n ≤ d.writes) (hfound : d.Found n found) :
    (query.answered n found).1.Clear d := by
  cases query with
  | stopDaemon after =>
      rcases found with _ | pid
      · exact CtlPhase.clear_of_blank (CtlPhase.covered_goOn after)
      · refine ⟨?_, ?_, ?_⟩ <;> simp only [answered, CtlPhase.covered, CtlPhase.names, CtlPhase.cleared]
        · rintro m ⟨⟩
          exact hn
        · rintro m p ⟨⟩
          exact hfound.2
        · rintro m ⟨⟩
  | stop after =>
      rcases found with _ | pid
      · exact CtlPhase.clear_of_blank (CtlPhase.covered_goOn after)
      · exact CtlPhase.clear_of_blank rfl
  | _ => rcases found with _ | pid <;> exact CtlPhase.clear_of_blank rfl

/-- What is printed for an answer that is right is so. -/
theorem true_answered (query : Query) (hfound : d.Found n found) :
    ∀ r ∈ (query.answered n found).2, r.True d n := by
  cases query <;> rcases found with _ | pid <;> simp_all [answered, Report.True]

end Query

namespace Controlled

variable {s s' : Controlled} {p : Pid} {n : Nat}

/-! ## The condition -/

/-- What a command that is about to remove the file takes to be over: the service of those who had
written it by then, and that of the process it has killed. -/
def removal : CtlPhase → Option (Nat × Option Pid)
  | .removing _ n => some (n, none)
  | .clearing _ n killed => some (n, killed)
  | _ => none

theorem cleared_of_removal {v : CtlPhase} {killed : Option Pid} (h : removal v = some (n, killed)) :
    killed = none ∧ v.cleared = some n ∨ ∃ q, killed = some q ∧ v.names = some (n, q) := by
  rcases v with _ | _ | _ | _ | _ | _ | _ | _ | ⟨_, _, _ | q⟩ <;>
    simp_all [removal, CtlPhase.cleared, CtlPhase.names, eq_comm]

/-- Daemons and commands change the file only if those in service had written it before they looked, and
not before a kill has had its effect. -/
def Serialised (s : Controlled) : Label → Prop
  | .daemon l => s.daemons.Serialised l
  | .ctl p (.remove true) | .ctl p (.clear true) =>
      ∀ n killed, removal (s.phases p) = some (n, killed) →
        ∀ q written, s.daemons.procs q = .serving written → written ≤ n ∧ killed ≠ some q
  | _ => True

/-- The daemons and their file are as they should be, what each command goes by is so, and each has its
process. -/
structure Clear (s : Controlled) : Prop where
  daemons : s.daemons.Clear
  phases : ∀ p, (s.phases p).Clear s.daemons
  foreign : ∀ p, s.phases p ≠ .ended → s.daemons.procs p = .foreign

/-! ## Steps -/

theorem Clear.setDaemons (h : s.Clear) {d : Daemons} (hclear : d.Clear)
    (hfollows : s.daemons.Follows d)
    (hforeign : ∀ p, s.phases p ≠ .ended → s.daemons.procs p = .foreign → d.procs p = .foreign) :
    (s.setDaemons d).Clear where
  daemons := hclear
  phases p := (h.phases p).follows hfollows
  foreign p hp := hforeign p hp (h.foreign p hp)

theorem Clear.print (h : s.Clear) (n : Nat) (reports : List Report) : (s.print n reports).Clear :=
  ⟨h.daemons, h.phases, h.foreign⟩

theorem Clear.move (h : s.Clear) (hp : s.daemons.procs p = .foreign) {v : CtlPhase}
    (hv : v.Clear s.daemons) : (s.move p v).Clear := by
  have hfollows : s.daemons.Follows (if v = .ended then s.daemons.setProc p .absent else s.daemons) := by
    split
    · exact (Daemons.Follows.refl _).setProc (by simp)
    · exact .refl _
  refine ⟨?_, fun q => ?_, fun q hq => ?_⟩
  · show Daemons.Clear (if v = .ended then s.daemons.setProc p .absent else s.daemons)
    split
    · exact h.daemons.setProc_of_blank (by simp) rfl
    · exact h.daemons
  · show CtlPhase.Clear _ (Function.update s.phases p v q)
    by_cases hqp : q = p
    · rw [hqp, Function.update_self]
      exact hv.follows hfollows
    · rw [Function.update_of_ne hqp]
      exact (h.phases q).follows hfollows
  · have hq' : Function.update s.phases p v q ≠ .ended := hq
    show (if v = .ended then s.daemons.setProc p .absent else s.daemons).procs q = .foreign
    by_cases hqp : q = p
    · subst hqp
      rw [Function.update_self] at hq'
      rw [if_neg hq', hp]
    · rw [Function.update_of_ne hqp] at hq'
      split
      · rw [Daemons.setProc_procs_of_ne hqp, h.foreign q hq']
      · exact h.foreign q hq'

theorem Clear.answer (h : s.Clear) (hp : s.daemons.procs p = .foreign) (query : Query)
    (hn : n ≤ s.daemons.writes) {found : Option Pid} (hfound : s.daemons.Found n found) :
    (s.answer p query n found).Clear :=
  (h.print n _).move hp (query.clear_answered hn hfound)

theorem Clear.removeFile (h : s.Clear) {ok : Bool} (hidle : ok = true → ∀ q, ¬ s.daemons.Serving q) :
    (s.removeFile ok).Clear := by
  rcases ok with _ | _
  · exact h.setDaemons h.daemons (.refl _) fun _ _ => id
  · exact h.setDaemons (h.daemons.setFile (hidle rfl) _) ((Daemons.Follows.refl _).setFile _) fun _ _ => id

/-- A command that removes the file as it should finds nobody in service. -/
theorem Clear.idle (h : s.Clear) {killed : Option Pid}
    (hp : removal (s.phases p) = some (n, killed))
    (hserialised : ∀ q written, s.daemons.procs q = .serving written → written ≤ n ∧ killed ≠ some q) :
    ∀ q, ¬ s.daemons.Serving q := by
  rintro q ⟨written, hq⟩
  obtain ⟨hcovered, hkilled⟩ := hserialised q written hq
  rcases cleared_of_removal hp with ⟨_, hcleared⟩ | ⟨r, rfl, hnames⟩
  · have hmissed := (h.phases p).missed n hcleared q written hq
    omega
  · exact hkilled (congrArg some ((h.phases p).named n r hnames q written hq hcovered))

/-- The steps of a command. -/
inductive CtlNext (s : Controlled) (p : Pid) : CtlStep → Controlled → Prop
  | run {command : Command} : s.phases p = .ended → s.daemons.procs p = .absent →
      CtlNext s p (.run command)
        ((s.setDaemons (s.daemons.setProc p .foreign)).move p command.begin)
  | missing {query : Query} {ok : Bool} : s.phases p = .looking query → s.daemons.file = .missing →
      CtlNext s p (.look ok) (s.answer p query s.daemons.writes none)
  | looked {query : Query} : s.phases p = .looking query →
      CtlNext s p (.look true) (s.move p (.reading query s.daemons.writes))
  | unseen {query : Query} : s.phases p = .looking query →
      CtlNext s p (.look false) (s.answer p query 0 none)
  | read {query : Query} {n : Nat} {named : Pid} : s.phases p = .reading query n →
      s.daemons.file = .pid named → CtlNext s p (.read true) (s.move p (.probing query n named))
  | unnamed {query : Query} {n : Nat} : s.phases p = .reading query n →
      (∀ q, s.daemons.file ≠ .pid q) → CtlNext s p (.read true) (s.answer p query n none)
  | unread {query : Query} {n : Nat} : s.phases p = .reading query n →
      CtlNext s p (.read false) (s.answer p query 0 none)
  | found {query : Query} {n : Nat} {named : Pid} {permitted : Bool} :
      s.phases p = .probing query n named → s.daemons.answers named permitted = true →
      CtlNext s p (.probe permitted) (s.answer p query n (some named))
  | dead {query : Query} {n : Nat} {named : Pid} {permitted : Bool} :
      s.phases p = .probing query n named → ¬ s.daemons.answers named permitted = true →
      CtlNext s p (.probe permitted) (s.move p (.removing query n))
  | removed {query : Query} {n : Nat} {ok : Bool} : s.phases p = .removing query n →
      CtlNext s p (.remove ok) ((s.removeFile ok).answer p query n none)
  | spawned {q : Pid} {d : Daemons} : s.phases p = .launching false →
      s.daemons.next (.launch q) = some d →
      CtlNext s p (.spawn q) ((s.setDaemons d).move p (.looking .started))
  | became : s.phases p = .launching true →
      CtlNext s p .exec ((s.move p .ended).setDaemons (s.daemons.setProc p .looking))
  | failed {foreground : Bool} : s.phases p = .launching foreground →
      CtlNext s p .failLaunch (s.move p .ended)
  | terminated {after : Option Bool} {n : Nat} {named : Pid} :
      s.phases p = .terminating after n named →
      CtlNext s p .terminate (s.move p (.polling after n named 50))
  | alive {after : Option Bool} {n : Nat} {named : Pid} {left : Nat} {permitted : Bool} :
      s.phases p = .polling after n named (left + 1) →
      s.daemons.answers named permitted = true →
      CtlNext s p (.poll permitted) (s.move p (.polling after n named left))
  | gone {after : Option Bool} {n : Nat} {named : Pid} {left : Nat} {permitted : Bool} :
      s.phases p = .polling after n named (left + 1) →
      ¬ s.daemons.answers named permitted = true →
      CtlNext s p (.poll permitted) (s.move p (.clearing after n none))
  | killed {after : Option Bool} {n : Nat} {named : Pid} : s.phases p = .polling after n named 0 →
      CtlNext s p .kill (s.move p (.clearing after n (some named)))
  | cleared {after : Option Bool} {n : Nat} {killed : Option Pid} {ok : Bool} :
      s.phases p = .clearing after n killed →
      CtlNext s p (.clear ok) (((s.removeFile ok).print n [.stopped]).move p (.goOn after))
  | aborted : s.phases p ≠ .ended → CtlNext s p .abort (s.move p .ended)

theorem ctlNext_of_next {step : CtlStep} (hnext : s.nextCtl p step = some s') :
    CtlNext s p step s' := by
  unfold nextCtl at hnext
  split at hnext
  · split at hnext <;> cases hnext
    exact .run ‹_› ‹_›
  · split at hnext
    · cases hnext
      exact .missing ‹_› ‹_›
    · split at hnext <;> cases hnext
      · rename_i hok
        subst hok
        exact .looked ‹_›
      · rename_i hok
        rw [Bool.not_eq_true] at hok
        subst hok
        exact .unseen ‹_›
  · split at hnext
    · rename_i hok
      subst hok
      split at hnext <;> cases hnext
      · exact .read ‹_› ‹_›
      · exact .unnamed ‹_› ‹_›
    · rename_i hok
      rw [Bool.not_eq_true] at hok
      subst hok
      cases hnext
      exact .unread ‹_›
  · split at hnext <;> cases hnext
    · exact .found ‹_› ‹_›
    · exact .dead ‹_› ‹_›
  · cases hnext
    exact .removed ‹_›
  · split at hnext
    · cases hnext
    · rename_i hp hforeground
      rw [Bool.not_eq_true] at hforeground
      subst hforeground
      obtain ⟨d, hd, rfl⟩ := Option.map_eq_some_iff.mp hnext
      exact .spawned hp hd
  · split at hnext <;> cases hnext
    rename_i hp hforeground
    subst hforeground
    exact .became hp
  · cases hnext
    exact .failed ‹_›
  · cases hnext
    exact .terminated ‹_›
  · split at hnext <;> cases hnext
    · exact .alive ‹_› ‹_›
    · exact .gone ‹_› ‹_›
  · cases hnext
    exact .killed ‹_›
  · cases hnext
    exact .cleared ‹_›
  · cases hnext
  · cases hnext
    exact .aborted ‹_›
  · cases hnext

/-! ## Commands keep the invariant -/

theorem procs_removeFile (s : Controlled) (ok : Bool) :
    (s.removeFile ok).daemons.procs = s.daemons.procs := by
  rcases ok with _ | _ <;> rfl

theorem writes_removeFile (s : Controlled) (ok : Bool) :
    (s.removeFile ok).daemons.writes = s.daemons.writes := by
  rcases ok with _ | _ <;> rfl

/-- The file may go when those who had written it are gone. -/
theorem Clear.removed (h : s.Clear) {ok : Bool} {killed : Option Pid}
    (hremoval : removal (s.phases p) = some (n, killed))
    (hserialised : ok = true → ∀ q written, s.daemons.procs q = .serving written →
      written ≤ n ∧ killed ≠ some q) : (s.removeFile ok).Clear :=
  h.removeFile fun hok => h.idle hremoval (hserialised hok)

theorem clear_of_ctl (h : s.Clear) {step : CtlStep} (hserialised : Serialised s (.ctl p step))
    (hnext : s.nextCtl p step = some s') : s'.Clear := by
  have hphase := h.phases p
  have hforeign := h.foreign p
  cases ctlNext_of_next hnext with
  | run hp habsent =>
      rename_i command
      have hset : (s.setDaemons (s.daemons.setProc p .foreign)).Clear := by
        refine h.setDaemons (h.daemons.setProc_of_blank (by simp) rfl)
          ((Daemons.Follows.refl _).setProc (by simp)) fun q hq hqf => ?_
        have hne : q ≠ p := by
          rintro rfl
          exact hq hp
        rw [Daemons.setProc_procs_of_ne hne, hqf]
      refine hset.move Daemons.setProc_procs_self (CtlPhase.clear_of_blank ?_)
      cases command <;> rfl
  | missing hp hfile =>
      exact h.answer (hforeign (by simp [hp])) _ (Nat.le_refl _)
        (h.daemons.noneServes (by simp [hfile]) _)
  | looked hp =>
      refine h.move (hforeign (by simp [hp])) ⟨?_, ?_, ?_⟩ <;>
        simp [CtlPhase.covered, CtlPhase.names, CtlPhase.cleared]
  | unseen hp => exact h.answer (hforeign (by simp [hp])) _ (Nat.zero_le _) h.daemons.noneServes_zero
  | @read query n named hp hfile =>
      refine h.move (hforeign (by simp [hp])) ⟨?_, ?_, ?_⟩
      · rintro m ⟨⟩
        exact hphase.seen n (by rw [hp]; rfl)
      · rintro m q ⟨⟩
        exact h.daemons.onlyServes hfile n
      · rintro m ⟨⟩
  | unnamed hp hfile =>
      exact h.answer (hforeign (by simp [hp])) _ (hphase.seen _ (by rw [hp]; rfl))
        (h.daemons.noneServes hfile _)
  | unread hp => exact h.answer (hforeign (by simp [hp])) _ (Nat.zero_le _) h.daemons.noneServes_zero
  | found hp halive =>
      exact h.answer (hforeign (by simp [hp])) _ (hphase.seen _ (by rw [hp]; rfl))
        ((hphase.named _ _ (by rw [hp]; rfl)).found halive)
  | @dead query n named permitted hp hdead =>
      refine h.move (hforeign (by simp [hp])) ⟨?_, ?_, ?_⟩
      · rintro m ⟨⟩
        exact hphase.seen n (by rw [hp]; rfl)
      · rintro m q ⟨⟩
      · rintro m ⟨⟩
        exact (hphase.named n named (by rw [hp]; rfl)).none hdead
  | @removed query n ok hp =>
      have hremoval : removal (s.phases p) = some (n, none) := by rw [hp]; rfl
      have hgone : (s.removeFile ok).Clear := h.removed hremoval fun hok => by
        subst hok
        exact hserialised n none hremoval
      refine hgone.answer ?_ query ?_ ?_
      · rw [procs_removeFile, hforeign (by simp [hp])]
      · rw [writes_removeFile]
        exact hphase.seen n (by rw [hp]; rfl)
      · show ∀ q written, (s.removeFile ok).daemons.procs q = .serving written → n < written
        rw [procs_removeFile]
        exact hphase.missed n (by rw [hp]; rfl)
  | @spawned q d hp hd =>
      have hset : (s.setDaemons d).Clear := by
        refine h.setDaemons (Daemons.clear_of_unchanged h.daemons rfl hd)
          (Daemons.follows_of_next hd) fun r _ hr => ?_
        exact Daemons.foreign_of_next hd (by simp) hr
      have hself : d.procs p = .foreign :=
        Daemons.foreign_of_next hd (by simp) (hforeign (by simp [hp]))
      exact hset.move hself (CtlPhase.clear_of_blank rfl)
  | became hp =>
      have hmove : (s.move p .ended).Clear :=
        h.move (hforeign (by simp [hp])) (CtlPhase.clear_of_blank rfl)
      have hsame : s.daemons.setProc p .looking = (s.move p .ended).daemons.setProc p .looking := by
        simp [move, Daemons.setProc]
      rw [hsame]
      refine hmove.setDaemons (hmove.daemons.setProc_of_blank (by simp) rfl)
        ((Daemons.Follows.refl _).setProc (by simp)) fun q hq hqf => ?_
      have hne : q ≠ p := by
        rintro rfl
        simp [move] at hq
      rw [Daemons.setProc_procs_of_ne hne, hqf]
  | failed hp => exact h.move (hforeign (by simp [hp])) (CtlPhase.clear_of_blank rfl)
  | terminated hp =>
      rw [hp] at hphase
      exact h.move (hforeign (by simp [hp])) ⟨hphase.seen, hphase.named, hphase.missed⟩
  | alive hp _ =>
      rw [hp] at hphase
      exact h.move (hforeign (by simp [hp])) ⟨hphase.seen, hphase.named, hphase.missed⟩
  | @gone after n named left permitted hp hdead =>
      refine h.move (hforeign (by simp [hp])) ⟨?_, ?_, ?_⟩
      · rintro m ⟨⟩
        exact hphase.seen n (by rw [hp]; rfl)
      · rintro m q ⟨⟩
      · rintro m ⟨⟩
        exact (hphase.named n named (by rw [hp]; rfl)).none hdead
  | killed hp =>
      rw [hp] at hphase
      exact h.move (hforeign (by simp [hp])) ⟨hphase.seen, hphase.named, hphase.missed⟩
  | @cleared after n killed ok hp =>
      have hremoval : removal (s.phases p) = some (n, killed) := by rw [hp]; rfl
      have hgone : (s.removeFile ok).Clear := h.removed hremoval fun hok => by
        subst hok
        exact hserialised n killed hremoval
      refine (hgone.print n [.stopped]).move ?_ (CtlPhase.clear_of_blank (CtlPhase.covered_goOn after))
      show (s.removeFile ok).daemons.procs p = .foreign
      rw [procs_removeFile, hforeign (by simp [hp])]
  | aborted hp => exact h.move (hforeign hp) (CtlPhase.clear_of_blank rfl)

/-- A step of the daemons is one beside the commands, whose processes it leaves alone. -/
theorem daemon_of_next {l : Daemons.Label} (hnext : s.next (.daemon l) = some s') :
    ∃ d, s.daemons.next l = some d ∧ s' = s.setDaemons d ∧
      ∀ p, s.phases p ≠ .ended → l ≠ .foreign p false := by
  simp only [next] at hnext
  split at hnext
  · rename_i p
    split at hnext
    · rename_i hended
      obtain ⟨d, hd, rfl⟩ := Option.map_eq_some_iff.mp hnext
      refine ⟨d, hd, rfl, fun q hq heq => ?_⟩
      obtain ⟨rfl, -⟩ := Daemons.Label.foreign.inj heq
      exact hq hended
    · cases hnext
  · rename_i hl
    obtain ⟨d, hd, rfl⟩ := Option.map_eq_some_iff.mp hnext
    exact ⟨d, hd, rfl, fun q _ => hl q⟩

theorem clear_of_daemon (h : s.Clear) {l : Daemons.Label} (hserialised : s.daemons.Serialised l)
    (hnext : s.next (.daemon l) = some s') : s'.Clear := by
  obtain ⟨d, hd, rfl, hl⟩ := daemon_of_next hnext
  exact h.setDaemons ((Daemons.step_exact h.daemons hd).2 hserialised) (Daemons.follows_of_next hd)
    fun p hp => Daemons.foreign_of_next hd (hl p hp)

theorem file_move (s : Controlled) (p : Pid) (v : CtlPhase) :
    (s.move p v).daemons.file = s.daemons.file := by
  show (if v = .ended then s.daemons.setProc p .absent else s.daemons).file = _
  split <;> rfl

theorem serving_move (hp : s.daemons.procs p = .foreign) (v : CtlPhase) {q : Pid}
    (hq : s.daemons.Serving q) : (s.move p v).daemons.Serving q := by
  obtain ⟨written, hq⟩ := hq
  have hne : q ≠ p := by
    rintro rfl
    simp [hp] at hq
  refine ⟨written, ?_⟩
  show (if v = .ended then s.daemons.setProc p .absent else s.daemons).procs q = _
  split
  · rw [Daemons.setProc_procs_of_ne hne, hq]
  · exact hq

/-- Where the file stays truthful a command has removed it only while nobody was in service. -/
theorem serialised_of_ctl (h : s.Clear) {step : CtlStep} (hnext : s.nextCtl p step = some s')
    (htruthful : s'.daemons.Truthful) : Serialised s (.ctl p step) := by
  have hidle : ∀ {t : Controlled} {v : CtlPhase}, t.daemons.procs = s.daemons.procs →
      t.daemons.file = .missing → s.phases p ≠ .ended → (t.move p v).daemons.Truthful →
      ∀ n killed, removal (s.phases p) = some (n, killed) →
        ∀ q written, s.daemons.procs q = .serving written → written ≤ n ∧ killed ≠ some q := by
    intro t v hprocs hfile hp ht n killed _ q written hq
    have hserves : (t.move p v).daemons.Serving q :=
      serving_move (by rw [hprocs, h.foreign p hp]) v ⟨written, by rw [hprocs, hq]⟩
    have hrecorded := ht.recorded q hserves
    rw [file_move, hfile] at hrecorded
    cases hrecorded
  cases ctlNext_of_next hnext with
  | @removed query n ok hp =>
      rcases ok with _ | _
      · trivial
      · exact hidle (t := (s.removeFile true).print n _) rfl rfl (by simp [hp]) htruthful
  | @cleared after n killed ok hp =>
      rcases ok with _ | _
      · trivial
      · exact hidle (t := (s.removeFile true).print n _) rfl rfl (by simp [hp]) htruthful
  | _ => trivial

/-- From a state with the invariant, a step keeps the file truthful exactly when it is serialised, and
then it keeps the invariant. -/
theorem step_exact (h : s.Clear) {l : Label} (hnext : s.next l = some s') :
    (s'.daemons.Truthful ↔ Serialised s l) ∧ (Serialised s l → s'.Clear) := by
  cases l with
  | daemon l =>
      have hclear : s.daemons.Serialised l → s'.Clear := fun hl => clear_of_daemon h hl hnext
      obtain ⟨d, hd, rfl, _⟩ := daemon_of_next hnext
      exact ⟨(Daemons.step_exact h.daemons hd).1, hclear⟩
  | ctl p step =>
      have hclear : Serialised s (.ctl p step) → s'.Clear := fun hl => clear_of_ctl h hl hnext
      exact ⟨⟨serialised_of_ctl h hnext, fun hl => (hclear hl).daemons.truthful⟩, hclear⟩

theorem clear_init (h : lts.init s) : s.Clear := by
  obtain ⟨hdaemons, hended, _⟩ := h
  refine ⟨Daemons.clear_init hdaemons, fun p => ?_, fun p hp => absurd (hended p) hp⟩
  rw [hended p]
  exact CtlPhase.clear_of_blank rfl

/-- With any commands beside the daemons, the file is truthful in every state of a run if and only if
every step is serialised. -/
theorem commands_truthful_iff {s₀ t : Controlled} {ls : List Label} (hinit : lts.init s₀)
    (hrun : lts.Steps LTS.anyStep s₀ ls t) :
    lts.Along (fun s => s.daemons.Truthful) s₀ ls ↔ lts.Steps Serialised s₀ ls t :=
  hrun.along_iff (fun _ h => h.daemons.truthful) (fun _ _ _ h hnext => step_exact h hnext)
    (clear_init hinit)

/-- No daemon and no command runs, and there is no file. -/
def idle : Controlled := ⟨Daemons.quiet, fun _ => .ended, []⟩

/-- A daemon goes into service and crashes, and `status` finds its file. -/
def crashed : List Label :=
  [.daemon (.launch 10), .daemon (.look 10 true), .daemon (.write 10), .daemon (.crash 10),
    .ctl 20 (.run .status), .ctl 20 (.look true), .ctl 20 (.read true), .ctl 20 (.probe true),
    .ctl 20 (.remove true)]

theorem commands_truthful_iff_crashed :
    lts.Along (fun s => s.daemons.Truthful) idle crashed := by
  obtain ⟨t, hrun⟩ : ∃ t, lts.exec idle crashed = some t := ⟨_, rfl⟩
  have hsteps := LTS.steps_of_exec hrun (LTS.guarded_anyStep _ _)
  have hinit : lts.init idle := ⟨⟨fun _ => .inl rfl, rfl⟩, fun _ => rfl, rfl⟩
  have hguarded : lts.Guarded Serialised idle crashed := by
    refine ⟨nofun, nofun, ?_, nofun, trivial, trivial, trivial, trivial, ?_, trivial⟩
    · intro p n _ _ q written hq
      simp only [idle, setDaemons, Daemons.quiet, Daemons.setProc, Function.update_apply] at hq
      split_ifs at hq
    · intro n killed _ q written hq
      simp [idle, setDaemons, move, Command.begin, Daemons.quiet, Daemons.setProc, Daemons.setFile,
        Function.update_apply] at hq
      split_ifs at hq
  exact (commands_truthful_iff hinit hsteps).mpr (LTS.steps_of_exec hrun hguarded)

/-! ## What commands print, and whom they signal -/

/-- What a step prints is so. -/
def Told (s s' : Controlled) : Prop :=
  ∃ lines, s'.printed = lines ++ s.printed ∧ ∀ line ∈ lines, line.2.True s.daemons line.1

theorem told_of_same (h : s'.printed = s.printed) : Told s s' := ⟨[], h, by simp⟩

/-- `t` is the state before, perhaps without the file. -/
theorem told_answer {t : Controlled} (ht : t.printed = s.printed) (query : Query) {found : Option Pid}
    (hfound : s.daemons.Found n found) : Told s (t.answer p query n found) := by
  refine ⟨(query.answered n found).2.map (n, ·), ?_, ?_⟩
  · show (query.answered n found).2.map (n, ·) ++ t.printed = _
    rw [ht]
  · rintro line hline
    obtain ⟨r, hr, rfl⟩ := List.mem_map.mp hline
    exact query.true_answered hfound r hr

/-- A process that was killed is gone by the time the file is removed. -/
def KillsDone (s : Controlled) : Label → Prop
  | .ctl p (.clear _) => ∀ n q, (s.phases p).names = some (n, q) → ¬ s.daemons.Serving q
  | _ => True

theorem told_of_ctl (h : s.Clear) {step : CtlStep} (hkills : KillsDone s (.ctl p step))
    (hnext : s.nextCtl p step = some s') : Told s s' := by
  have hphase := h.phases p
  cases ctlNext_of_next hnext with
  | missing hp hfile => exact told_answer rfl _ (h.daemons.noneServes (by simp [hfile]) _)
  | unseen hp => exact told_answer rfl _ h.daemons.noneServes_zero
  | unnamed hp hfile => exact told_answer rfl _ (h.daemons.noneServes hfile _)
  | unread hp => exact told_answer rfl _ h.daemons.noneServes_zero
  | found hp halive => exact told_answer rfl _ ((hphase.named _ _ (by rw [hp]; rfl)).found halive)
  | @removed query n ok hp =>
      exact told_answer (s := s) (t := s.removeFile ok) rfl _ (hphase.missed n (by rw [hp]; rfl))
  | @cleared after n killed ok hp =>
      refine ⟨[(n, .stopped)], rfl, ?_⟩
      suffices hnone : s.daemons.NoneServes n by simpa [Report.True, Daemons.Found] using hnone
      rcases killed with _ | q
      · exact hphase.missed n (by rw [hp]; rfl)
      · -- the process named had been killed, and no other one is in service
        have hnames : (s.phases p).names = some (n, q) := by rw [hp]; rfl
        intro r written hr
        by_contra hle
        obtain rfl := hphase.named n q hnames r written hr (by omega)
        exact hkills n q hnames ⟨written, hr⟩
  | _ => exact told_of_same rfl

/-- Whom a step signals, after the writes that were covered when the command looked. -/
def signals (v : CtlPhase) : CtlStep → Option (Nat × Pid)
  | .terminate | .kill => v.names
  | _ => none

theorem clear_of_reach (h : lts.Reach (fun s l => Serialised s l ∧ KillsDone s l) s) : s.Clear :=
  h.invariant (fun _ => clear_init) fun _ _ _ hs hguard hnext => (step_exact hs hnext).2 hguard.1

/-- In serialised runs in which kills have their effect, what a command prints is so of the daemons that
had written the file when it looked, and it signals none of those in service but the one the file named. -/
theorem reports_true (h : lts.Reach (fun s l => Serialised s l ∧ KillsDone s l) s) {step : CtlStep}
    (hkills : KillsDone s (.ctl p step)) (hnext : s.next (.ctl p step) = some s') :
    Told s s' ∧ ∀ n q, signals (s.phases p) step = some (n, q) → s.daemons.OnlyServes n q := by
  have hclear := clear_of_reach h
  refine ⟨told_of_ctl hclear hkills hnext, fun n q hsignals => ?_⟩
  refine (hclear.phases p).named n q ?_
  cases step <;> simp_all [signals]

/-- A daemon is in service, and a command is about to learn its pid, to stop it. -/
def stopping : List Label :=
  [.daemon (.launch 10), .daemon (.look 10 true), .daemon (.write 10), .ctl 20 (.run .stop),
    .ctl 20 (.look true), .ctl 20 (.read true), .ctl 20 (.probe true),
    .ctl 20 (.look true), .ctl 20 (.read true)]

/-- It learns whom to signal. -/
def finding : List Label := [.ctl 20 (.look true), .ctl 20 (.read true), .ctl 20 (.probe true)]

/-- The command says whom it stops, and then it signals that daemon. -/
theorem reports_true_stopping :
    ∃ s s' t t', lts.exec idle stopping = some s ∧ s.next (.ctl 20 (.probe true)) = some s' ∧
      s'.printed = [(1, .stopping 10)] ∧ Report.True s.daemons 1 (.stopping 10) ∧
      lts.exec s' finding = some t ∧ t.next (.ctl 20 .terminate) = some t' ∧
      t.daemons.OnlyServes 1 10 := by
  obtain ⟨s, s', t, t', hexec, hsilent, hnext, hprinted, hexec', hnext', hsignals⟩ :
      ∃ s s' t t', lts.exec idle stopping = some s ∧ s.printed = [] ∧
        s.next (.ctl 20 (.probe true)) = some s' ∧ s'.printed = [(1, .stopping 10)] ∧
        lts.exec s' finding = some t ∧ t.next (.ctl 20 .terminate) = some t' ∧
        signals (t.phases 20) .terminate = some (1, 10) :=
    ⟨_, _, _, _, rfl, rfl, rfl, rfl, rfl, rfl, rfl⟩
  have hinit : lts.init idle := ⟨⟨fun _ => .inl rfl, rfl⟩, fun _ => rfl, rfl⟩
  have hguarded : lts.Guarded (fun s l => Serialised s l ∧ KillsDone s l) idle stopping := by
    refine ⟨⟨nofun, trivial⟩, ⟨nofun, trivial⟩, ⟨?_, trivial⟩, ⟨trivial, trivial⟩, ⟨trivial, trivial⟩,
      ⟨trivial, trivial⟩, ⟨trivial, trivial⟩, ⟨trivial, trivial⟩, ⟨trivial, trivial⟩, trivial⟩
    intro p n _ _ q written hq
    simp only [idle, setDaemons, Daemons.quiet, Daemons.setProc, Function.update_apply] at hq
    split_ifs at hq
  have hreach : lts.Reach (fun s l => Serialised s l ∧ KillsDone s l) s :=
    ⟨idle, stopping, hinit, LTS.steps_of_exec hexec hguarded⟩
  have hguard : Serialised s (.ctl 20 (.probe true)) ∧ KillsDone s (.ctl 20 (.probe true)) :=
    ⟨trivial, trivial⟩
  have hreach' : lts.Reach (fun s l => Serialised s l ∧ KillsDone s l) t :=
    (hreach.step hguard hnext).steps
      (LTS.steps_of_exec hexec' (LTS.guarded_of_forall (by simp [finding, Serialised, KillsDone]) s'))
  have hkills' : KillsDone t (.ctl 20 .terminate) := trivial
  obtain ⟨⟨lines, hlines, htrue⟩, _⟩ := reports_true hreach hguard.2 hnext
  refine ⟨s, s', t, t', hexec, hnext, hprinted, ?_, hexec', hnext',
    (reports_true hreach' hkills' hnext').2 1 10 hsignals⟩
  rw [hprinted, hsilent, List.append_nil] at hlines
  apply htrue (1, .stopping 10)
  rw [← hlines]
  exact List.mem_singleton_self _

/-! ## Commands end -/

/-- A bound on the steps that a command has still to take. -/
def costAfter : Option Bool → Nat
  | none => 0
  | some _ => 13

/-- After `read_pid`. -/
def costAnswered : Query → Nat
  | .restart _ => 78
  | .stop after => 61 + costAfter after
  | .stopPid after => 57 + costAfter after
  | .stopDaemon after => 53 + costAfter after
  | .start _ => 9
  | .started => 4
  | .runningPid | .startedPid | .status => 0

/-- A bound on the steps that a command has still to take, from where it is. -/
def cost : CtlPhase → Nat
  | .ended => 0
  | .looking query => 4 + costAnswered query
  | .reading query _ => 3 + costAnswered query
  | .probing query _ _ => 2 + costAnswered query
  | .removing query _ => 1 + costAnswered query
  | .launching _ => 9
  | .terminating after _ _ => 53 + costAfter after
  | .polling after _ _ left => left + 2 + costAfter after
  | .clearing after _ _ => 1 + costAfter after

theorem cost_goOn (after : Option Bool) : cost (.goOn after) = costAfter after := by
  rcases after with _ | _ <;> rfl

theorem cost_answered (query : Query) (n : Nat) (found : Option Pid) :
    cost (query.answered n found).1 ≤ costAnswered query := by
  cases query <;> rcases found with _ | _ <;>
    simp only [Query.answered, Option.isSome_none, Option.isSome_some, Bool.false_eq_true, if_true,
      if_false, cost_goOn]
  all_goals
    simp only [cost, costAnswered, costAfter]
    omega

theorem cost_pos {v : CtlPhase} (h : v ≠ .ended) : 0 < cost v := by
  cases v <;> simp only [cost, ne_eq, not_true_eq_false] at h ⊢ <;> omega

theorem phases_move (s : Controlled) (p : Pid) (v : CtlPhase) : (s.move p v).phases p = v :=
  Function.update_self ..

/-- Every step of a command that has begun lowers the bound. -/
theorem cost_of_ctl {step : CtlStep} (hrun : ∀ command, step ≠ .run command)
    (hnext : s.nextCtl p step = some s') : cost (s'.phases p) < cost (s.phases p) := by
  have hanswer : ∀ (t : Controlled) (query : Query) (n : Nat) (found : Option Pid),
      cost ((t.answer p query n found).phases p) ≤ costAnswered query := fun t query n found => by
    rw [answer, phases_move]
    exact cost_answered query n found
  cases ctlNext_of_next hnext with
  | run => exact absurd rfl (hrun _)
  | missing hp _ | unseen hp | unnamed hp _ | unread hp | found hp _ =>
      rw [hp]
      refine Nat.lt_of_le_of_lt (hanswer _ _ _ _) ?_
      simp [cost]
  | removed hp =>
      rw [hp]
      refine Nat.lt_of_le_of_lt (hanswer _ _ _ _) ?_
      simp [cost]
  | looked hp | read hp _ | dead hp _ | spawned hp _ | failed hp | terminated hp | alive hp _
  | gone hp _ | killed hp =>
      rw [phases_move, hp]
      simp only [cost, costAnswered]
      omega
  | became hp =>
      show cost ((s.move p .ended).phases p) < _
      rw [phases_move, hp]
      simp [cost]
  | cleared hp =>
      rw [phases_move, hp, cost_goOn]
      simp [cost]
  | aborted hp =>
      rw [phases_move]
      exact cost_pos hp

/-- Nobody else moves a command. -/
theorem phases_of_other {l : Label} (hl : ∀ step, l ≠ .ctl p step) (hnext : s.next l = some s') :
    s'.phases p = s.phases p := by
  cases l with
  | daemon l =>
      obtain ⟨d, _, rfl, _⟩ := daemon_of_next hnext
      rfl
  | ctl q step =>
      have hne : p ≠ q := by
        rintro rfl
        exact hl step rfl
      have hmove : ∀ (t : Controlled) (v : CtlPhase), (t.move q v).phases p = t.phases p := fun t v =>
        Function.update_of_ne hne ..
      cases ctlNext_of_next hnext <;> exact hmove _ _

/-- The step is one of this command. -/
def Label.ofCtl (p : Pid) : Label → Bool
  | .ctl q _ => q == p
  | .daemon _ => false

/-- No new command begins under this pid. -/
def Goes (p : Pid) (_ : Controlled) (l : Label) : Prop := ∀ command, l ≠ .ctl p (.run command)

theorem cost_of_steps {t : Controlled} {ls : List Label} (h : lts.Steps (Goes p) s ls t) :
    ls.countP (Label.ofCtl p) + cost (t.phases p) ≤ cost (s.phases p) := by
  induction h with
  | nil => simp
  | @cons s s' t l ls hgoes hnext _ ih =>
      rw [List.countP_cons]
      by_cases hl : ∃ step, l = .ctl p step
      · obtain ⟨step, rfl⟩ := hl
        have hless : cost (s'.phases p) < cost (s.phases p) :=
          cost_of_ctl (fun command heq => hgoes command (heq ▸ rfl)) hnext
        rw [if_pos (by simp [Label.ofCtl])]
        omega
      · have hsame : s'.phases p = s.phases p :=
          phases_of_other (fun step heq => hl ⟨step, heq⟩) hnext
        have hother : Label.ofCtl p l = false := by
          rcases l with l | ⟨q, step⟩
          · rfl
          · simp only [Label.ofCtl, beq_eq_false_iff_ne]
            rintro rfl
            exact hl ⟨step, rfl⟩
        rw [hsame] at ih
        simp [hother, ih]

theorem cost_begin (command : Command) : cost command.begin ≤ 82 := by
  cases command <;> simp [Command.begin, cost, costAnswered, costAfter]

/-- A command that has begun can go on until it has ended. -/
theorem exists_ctl (hp : s.phases p ≠ .ended) :
    ∃ step s', step ≠ .abort ∧ s.next (.ctl p step) = some s' := by
  suffices h : ∃ step, step ≠ .abort ∧ (s.nextCtl p step).isSome by
    obtain ⟨step, hstep, hsome⟩ := h
    obtain ⟨s', hs'⟩ := Option.isSome_iff_exists.mp hsome
    exact ⟨step, s', hstep, hs'⟩
  cases hv : s.phases p with
  | ended => exact absurd hv hp
  | looking query =>
      refine ⟨.look true, by simp, ?_⟩
      simp only [nextCtl, hv]
      split <;> rfl
  | reading query n =>
      refine ⟨.read true, by simp, ?_⟩
      simp only [nextCtl, hv, if_true]
      split <;> rfl
  | probing query n named =>
      refine ⟨.probe true, by simp, ?_⟩
      simp only [nextCtl, hv]
      split <;> rfl
  | removing query n => exact ⟨.remove true, by simp, by simp [nextCtl, hv]⟩
  | launching foreground => exact ⟨.failLaunch, by simp, by simp [nextCtl, hv]⟩
  | terminating after n named => exact ⟨.terminate, by simp, by simp [nextCtl, hv]⟩
  | polling after n named left =>
      rcases left with _ | left
      · exact ⟨.kill, by simp, by simp [nextCtl, hv]⟩
      · refine ⟨.poll true, by simp, ?_⟩
        simp only [nextCtl, hv]
        split <;> rfl
  | clearing after n killed => exact ⟨.clear true, by simp, by simp [nextCtl, hv]⟩

/-- Whatever daemons and other commands do meanwhile, a command takes at most 82 steps, and until it has
ended it can go on. -/
theorem command_ends {command : Command} {s₁ t : Controlled} {ls : List Label}
    (hbegin : s.next (.ctl p (.run command)) = some s₁) (h : lts.Steps (Goes p) s₁ ls t) :
    ls.countP (Label.ofCtl p) ≤ 82 ∧
      (t.phases p ≠ .ended → ∃ step t', step ≠ .abort ∧ t.next (.ctl p step) = some t') := by
  refine ⟨?_, exists_ctl⟩
  have hphase : s₁.phases p = command.begin := by
    cases ctlNext_of_next hbegin with
    | run => exact phases_move _ p _
  have hsteps := cost_of_steps h
  have hfirst := cost_begin command
  rw [hphase] at hsteps
  omega

/-- What the command that stops the daemon does, from its first look to its first signal. -/
def signalling : List Label := stopping.drop 4 ++ .ctl 20 (.probe true) :: finding

theorem command_ends_stopping :
    ∃ s s₁ t, lts.exec idle (stopping.take 3) = some s ∧ s.next (.ctl 20 (.run .stop)) = some s₁ ∧
      lts.exec s₁ signalling = some t ∧
      ∃ step t', step ≠ .abort ∧ t.next (.ctl 20 step) = some t' := by
  obtain ⟨s, s₁, t, hexec, hbegin, hrest, hphase⟩ :
      ∃ s s₁ t, lts.exec idle (stopping.take 3) = some s ∧ s.next (.ctl 20 (.run .stop)) = some s₁ ∧
        lts.exec s₁ signalling = some t ∧ t.phases 20 = .terminating none 1 10 :=
    ⟨_, _, _, rfl, rfl, rfl, rfl⟩
  have hgoes : lts.Guarded (Goes 20) s₁ signalling :=
    LTS.guarded_of_forall (by simp [signalling, stopping, finding, Goes]) s₁
  exact ⟨s, s₁, t, hexec, hbegin, hrest,
    (command_ends hbegin (LTS.steps_of_exec hrest hgoes)).2 (by simp [hphase])⟩

end Controlled

end Bluecross
