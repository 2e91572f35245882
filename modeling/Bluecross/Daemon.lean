/-
# Bluecross.Daemon — processes that share a PID file.

Any number of processes run `server::run` (or, with a PID file of their own, `client::run`): each checks
with `is_running` whether another one is there, writes its pid into the file, does its service and
removes the file when the service is over. Every access to the file is a step of its own, processes may
crash at any point, pids are used again, and a pid may belong to some other program.

A process carries the number of writes to the file that its check has covered. As long as every process
in service had written the file before the one that now writes or removes it last looked (`Serialised`),
the file names the process in service and there is only one; and no other run stays so
(`truthful_along_iff`).
-/
import Bluecross.Lib.Transition
import Mathlib.Logic.Function.Basic

namespace Bluecross

open Lib (LTS)

/-- A process id. -/
abbrev Pid := Nat

/-- What `read_pid` can find at the path of the PID file. -/
inductive PidFile where
  | missing
  | pid (p : Pid)
  /-- A content that is not a number. -/
  | garbage
  deriving DecidableEq, Repr

/-- The writes to the PID file are counted, and `covered` is the number of those that a check has
covered. -/
inductive Proc where
  | absent
  /-- Some other program. -/
  | foreign
  /-- Before the file is looked for. -/
  | looking
  | reading (covered : Nat)
  /-- The file names `named`, which is about to be probed. -/
  | probing (covered : Nat) (named : Pid)
  /-- The process named is dead, and the file about to be removed. -/
  | removing (covered : Nat)
  /-- Nobody runs: the configuration is loaded, the process daemonized and the log opened. -/
  | starting (covered : Nat)
  /-- In service after the write with this number. -/
  | serving (written : Nat)
  /-- The service is over, and the file about to be removed. -/
  | stopping (written : Nat)
  deriving DecidableEq, Repr

namespace Proc

/-- The writes a process has seen. -/
def seen : Proc → Option Nat
  | reading n | probing n _ | removing n | starting n | stopping n => some n
  | _ => none

/-- The writes that a process which goes on to write or remove the file takes to be over. -/
def cleared : Proc → Option Nat
  | removing n | starting n | stopping n => some n
  | _ => none

theorem seen_of_cleared {v : Proc} {n : Nat} (h : v.cleared = some n) : v.seen = some n := by
  cases v <;> first | exact h | cases h

end Proc

/-- The processes, the file they share, and how often it has been written. -/
structure Daemons where
  procs : Pid → Proc
  file : PidFile
  writes : Nat

namespace Daemons

/-- A step of one process. -/
inductive Label where
  /-- A process calls `run`. -/
  | launch (p : Pid)
  /-- `pid_file.exists()`, which also denies when it fails. -/
  | look (p : Pid) (ok : Bool)
  /-- `fs::read_to_string` and `parse`. -/
  | read (p : Pid) (ok : Bool)
  /-- `kill(pid, 0)`; it may be denied for another user's process. -/
  | probe (p : Pid) (permitted : Bool)
  | remove (p : Pid) (ok : Bool)
  /-- The configuration, `daemonize` or the log fails, and `run` returns. -/
  | fail (p : Pid)
  /-- The process goes on under another pid. -/
  | daemonize (p q : Pid)
  | write (p : Pid)
  /-- `fs::write` fails, perhaps with the file truncated already. -/
  | failWrite (p : Pid) (truncated : Bool)
  | finish (p : Pid)
  /-- `cleanup_pid`, after which `run` returns. -/
  | cleanup (p : Pid) (ok : Bool)
  | crash (p : Pid)
  /-- Another program starts or ends. -/
  | foreign (p : Pid) (starts : Bool)
  deriving DecidableEq, Repr

/-- Another state for one process. -/
def setProc (s : Daemons) (p : Pid) (v : Proc) : Daemons :=
  { s with procs := Function.update s.procs p v }

/-- Another content of the file. -/
def setFile (s : Daemons) (file : PidFile) : Daemons := { s with file := file }

/-- Whether `kill(pid, 0)` succeeds. -/
def answers (s : Daemons) (p : Pid) (permitted : Bool) : Bool :=
  match s.procs p with
  | .absent => false
  | .foreign => permitted
  | _ => true

/-- What a step makes of the processes and their file. -/
def next (s : Daemons) : Label → Option Daemons
  | .launch p =>
      match s.procs p with
      | .absent => some (s.setProc p .looking)
      | _ => none
  | .look p ok =>
      match s.procs p with
      | .looking =>
          if s.file = .missing then some (s.setProc p (.starting s.writes))
          else if ok then some (s.setProc p (.reading s.writes))
          else some (s.setProc p (.starting 0))
      | _ => none
  | .read p ok =>
      match s.procs p with
      | .reading covered =>
          if ok then
            match s.file with
            | .pid named => some (s.setProc p (.probing covered named))
            -- gone by now, or not a pid: `read_pid` answers `None` and leaves the file alone
            | _ => some (s.setProc p (.starting covered))
          else some (s.setProc p (.starting 0))
      | _ => none
  | .probe p permitted =>
      match s.procs p with
      | .probing covered named =>
          -- "already running", and the process exits
          if s.answers named permitted then some (s.setProc p .absent)
          else some (s.setProc p (.removing covered))
      | _ => none
  | .remove p ok =>
      match s.procs p with
      | .removing covered =>
          some ((if ok then s.setFile .missing else s).setProc p (.starting covered))
      | _ => none
  | .fail p =>
      match s.procs p with
      | .starting _ => some (s.setProc p .absent)
      | _ => none
  | .daemonize p q =>
      match s.procs p, s.procs q with
      | .starting covered, .absent =>
          some ((s.setProc p .absent).setProc q (.starting covered))
      | _, _ => none
  | .write p =>
      match s.procs p with
      | .starting _ =>
          some { (s.setFile (.pid p)).setProc p (.serving (s.writes + 1)) with
            writes := s.writes + 1 }
      | _ => none
  | .failWrite p truncated =>
      match s.procs p with
      | .starting _ => some ((if truncated then s.setFile .garbage else s).setProc p .absent)
      | _ => none
  | .finish p =>
      match s.procs p with
      | .serving written => some (s.setProc p (.stopping written))
      | _ => none
  | .cleanup p ok =>
      match s.procs p with
      | .stopping _ => some ((if ok then s.setFile .missing else s).setProc p .absent)
      | _ => none
  | .crash p =>
      match s.procs p with
      | .absent | .foreign => none
      | _ => some (s.setProc p .absent)
  | .foreign p starts =>
      match s.procs p with
      | .absent => if starts then some (s.setProc p .foreign) else none
      | .foreign => if starts then none else some (s.setProc p .absent)
      | _ => none

/-- At first no process runs; the file may have been left by an earlier one. -/
def lts : LTS Daemons Label where
  init s := (∀ p, s.procs p = .absent ∨ s.procs p = .foreign) ∧ s.writes = 0
  next := next

/-! ## What the PID file is for -/

/-- The process is between its write and the end of its service. -/
def Serving (s : Daemons) (p : Pid) : Prop := ∃ written, s.procs p = .serving written

/-- At most one process is in service, and then the file holds its pid. -/
structure Truthful (s : Daemons) : Prop where
  single : ∀ p q, s.Serving p → s.Serving q → p = q
  recorded : ∀ p, s.Serving p → s.file = .pid p

/-- The process that changes the file in a step. -/
def Label.changes : Label → Option Pid
  | .write p | .remove p true | .failWrite p true | .cleanup p true => some p
  | _ => none

/-- A process changes the file only if those in service had written it before its check, or before its
own write when it cleans up. -/
def Serialised (s : Daemons) (l : Label) : Prop :=
  ∀ p covered, l.changes = some p → (s.procs p).cleared = some covered →
    ∀ q written, s.procs q = .serving written → written ≤ covered

/-! ## The invariant -/

/-- The file names whoever is in service, whoever probes it has found that out, and whoever goes on to
change the file has seen fewer writes than that one's. -/
structure Clear (s : Daemons) : Prop where
  recorded : ∀ p written, s.procs p = .serving written → s.file = .pid p
  counted : ∀ p written, s.procs p = .serving written → 0 < written ∧ written ≤ s.writes
  seen : ∀ p n, (s.procs p).seen = some n → n ≤ s.writes
  probing : ∀ p n named, s.procs p = .probing n named →
    ∀ q written, s.procs q = .serving written → written ≤ n → named = q
  missed : ∀ p n, (s.procs p).cleared = some n →
    ∀ q written, s.procs q = .serving written → n < written

variable {s s' : Daemons} {p : Pid} {v : Proc}

theorem Clear.truthful (h : Clear s) : Truthful s := by
  refine ⟨?_, ?_⟩
  · rintro p q ⟨n, hp⟩ ⟨m, hq⟩
    have hfile := (h.recorded p n hp).symm.trans (h.recorded q m hq)
    exact PidFile.pid.inj hfile
  · rintro p ⟨n, hp⟩
    exact h.recorded p n hp

theorem setProc_procs_self : (s.setProc p v).procs p = v := Function.update_self ..

theorem setProc_procs_of_ne {q : Pid} (h : q ≠ p) : (s.setProc p v).procs q = s.procs q :=
  Function.update_of_ne h ..

/-- A process is in service after another step of its own only if it was before. -/
theorem serving_of_setProc (hv : ∀ n, v ≠ .serving n) {q : Pid} {written : Nat}
    (h : (s.setProc p v).procs q = .serving written) : q ≠ p ∧ s.procs q = .serving written := by
  by_cases hq : q = p
  · subst hq
    rw [setProc_procs_self] at h
    exact absurd h (hv written)
  · rw [setProc_procs_of_ne hq] at h
    exact ⟨hq, h⟩

/-- A process moves on, and not into service. -/
theorem Clear.setProc (h : Clear s) (hv : ∀ n, v ≠ .serving n)
    (hseen : ∀ n, v.seen = some n → n ≤ s.writes)
    (hprobing : ∀ n named, v = .probing n named →
      ∀ q written, q ≠ p → s.procs q = .serving written → written ≤ n → named = q)
    (hmissed : ∀ n, v.cleared = some n →
      ∀ q written, q ≠ p → s.procs q = .serving written → n < written) :
    Clear (s.setProc p v) := by
  refine ⟨?_, ?_, ?_, ?_, ?_⟩
  · intro q written hq
    exact h.recorded q written (serving_of_setProc hv hq).2
  · intro q written hq
    exact h.counted q written (serving_of_setProc hv hq).2
  · intro q n hq
    by_cases hqp : q = p
    · subst hqp
      rw [setProc_procs_self] at hq
      exact hseen n hq
    · rw [setProc_procs_of_ne hqp] at hq
      exact h.seen q n hq
  · intro q n named hq r written hr
    obtain ⟨hrp, hserves⟩ := serving_of_setProc hv hr
    by_cases hqp : q = p
    · subst hqp
      rw [setProc_procs_self] at hq
      exact hprobing n named hq r written hrp hserves
    · rw [setProc_procs_of_ne hqp] at hq
      exact h.probing q n named hq r written hserves
  · intro q n hq r written hr
    obtain ⟨hrp, hserves⟩ := serving_of_setProc hv hr
    by_cases hqp : q = p
    · subst hqp
      rw [setProc_procs_self] at hq
      exact hmissed n hq r written hrp hserves
    · rw [setProc_procs_of_ne hqp] at hq
      exact h.missed q n hq r written hserves

/-- A process moves on to a state in which it has seen nothing. -/
theorem Clear.setProc_of_blank (h : Clear s) (hv : ∀ n, v ≠ .serving n) (hblank : v.seen = none) :
    Clear (s.setProc p v) := by
  refine h.setProc hv (fun n hn => ?_) (fun n named hn => ?_) fun n hn => ?_
  · rw [hblank] at hn
    cases hn
  · rw [hn] at hblank
    cases hblank
  · rw [Proc.seen_of_cleared hn] at hblank
    cases hblank

/-- While nobody is in service the file may change. -/
theorem Clear.setFile (h : Clear s) (hidle : ∀ p, ¬ s.Serving p) (file : PidFile) :
    Clear (s.setFile file) :=
  ⟨fun q written hq => absurd ⟨written, hq⟩ (hidle q), h.counted, h.seen, h.probing, h.missed⟩

/-- While nobody is in service a process may write the file and go into service. -/
theorem Clear.write (h : Clear s) (hidle : ∀ p, ¬ s.Serving p) (p : Pid) :
    Clear { (s.setFile (.pid p)).setProc p (.serving (s.writes + 1)) with
      writes := s.writes + 1 } := by
  have honly : ∀ q written, Function.update s.procs p (.serving (s.writes + 1)) q = .serving written →
      q = p ∧ written = s.writes + 1 := by
    intro q written hq
    by_cases hqp : q = p
    · subst hqp
      rw [Function.update_self] at hq
      cases hq
      exact ⟨rfl, rfl⟩
    · rw [Function.update_of_ne hqp] at hq
      exact absurd ⟨written, hq⟩ (hidle q)
  have hseen : ∀ q n, (Function.update s.procs p (.serving (s.writes + 1)) q).seen = some n →
      n ≤ s.writes := by
    intro q n hq
    by_cases hqp : q = p
    · subst hqp
      rw [Function.update_self] at hq
      cases hq
    · rw [Function.update_of_ne hqp] at hq
      exact h.seen q n hq
  refine ⟨?_, ?_, ?_, ?_, ?_⟩
  · intro q written hq
    obtain ⟨rfl, _⟩ := honly q written hq
    rfl
  · intro q written hq
    obtain ⟨_, rfl⟩ := honly q written hq
    exact ⟨Nat.succ_pos _, Nat.le_refl _⟩
  · intro q n hq
    exact Nat.le_succ_of_le (hseen q n hq)
  · intro q n named hq r written hr hle
    obtain ⟨_, rfl⟩ := honly r written hr
    have hn : n ≤ s.writes := hseen q n (congrArg Proc.seen hq)
    omega
  · intro q n hq r written hr
    obtain ⟨_, rfl⟩ := honly r written hr
    have hn := hseen q n (Proc.seen_of_cleared hq)
    omega

/-! ## Steps -/

/-- When a process changes the file as it should, nobody is in service. -/
theorem Clear.idle (h : Clear s) {n : Nat} (hp : (s.procs p).cleared = some n)
    (hserialised : ∀ q written, s.procs q = .serving written → written ≤ n) :
    ∀ q, ¬ s.Serving q := by
  rintro q ⟨written, hq⟩
  have hmissed := h.missed p n hp q written hq
  have hcovered := hserialised q written hq
  omega

/-- A process that has cleared the file is not in service itself. -/
theorem ne_of_cleared {n : Nat} (hp : (s.procs p).cleared = some n) {q : Pid} {written : Nat}
    (hq : s.procs q = .serving written) : q ≠ p := by
  rintro rfl
  rw [hq] at hp
  cases hp

/-- A process that is about to write has seen fewer writes than that of whoever is in service. -/
theorem Clear.start (h : Clear s) {n : Nat} (hn : n ≤ s.writes)
    (hmissed : ∀ q written, s.procs q = .serving written → n < written) (p : Pid) :
    Clear (s.setProc p (.starting n)) := by
  refine h.setProc nofun (fun n' hn' => ?_) nofun fun n' hn' q written _ hq => ?_
  · cases hn'
    exact hn
  · cases hn'
    exact hmissed q written hq

/-- The check is good for nothing when the file could not be read. -/
theorem Clear.unread (h : Clear s) (p : Pid) : Clear (s.setProc p (.starting 0)) :=
  h.start (Nat.zero_le _) (fun q written hq => (h.counted q written hq).1) p

/-- The check has found that nobody is there: the file names no process. -/
theorem Clear.unnamed (h : Clear s) {n : Nat} (hn : n ≤ s.writes) (hfile : ∀ q, s.file ≠ .pid q)
    (p : Pid) : Clear (s.setProc p (.starting n)) :=
  h.start hn (fun q written hq => absurd (h.recorded q written hq) (hfile q)) p

/-- The file names whoever is in service. -/
theorem Clear.named (h : Clear s) {n : Nat} (hn : n ≤ s.writes) {named : Pid}
    (hfile : s.file = .pid named) (p : Pid) : Clear (s.setProc p (.probing n named)) := by
  refine h.setProc nofun (fun n' hn' => ?_) (fun n' named' hn' q written _ hq _ => ?_) nofun
  · cases hn'
    exact hn
  · cases hn'
    exact PidFile.pid.inj (hfile.symm.trans (h.recorded q written hq))

/-- The process probed does not answer, so nobody whose write was covered is in service. -/
theorem Clear.dead (h : Clear s) {n : Nat} {named : Pid} {permitted : Bool}
    (hp : s.procs p = .probing n named) (hdead : ¬ s.answers named permitted = true) :
    Clear (s.setProc p (.removing n)) := by
  refine h.setProc nofun (fun n' hn' => ?_) nofun fun n' hn' q written _ hq => ?_
  · cases hn'
    exact h.seen p n (by rw [hp]; rfl)
  · cases hn'
    -- otherwise the process probed is in service, and alive
    by_contra hle
    obtain rfl := h.probing p n named hp q written hq (by omega)
    exact hdead (by rw [answers, hq])

/-- Whoever ends its service was the only one in it. -/
theorem Clear.stop (h : Clear s) {n : Nat} (hp : s.procs p = .serving n) :
    Clear (s.setProc p (.stopping n)) := by
  refine h.setProc nofun (fun n' hn' => ?_) nofun fun n' hn' q written hne hq => ?_
  · cases hn'
    exact (h.counted p n hp).2
  · exact absurd (h.truthful.single q p ⟨written, hq⟩ ⟨n, hp⟩) hne

/-- A step that leaves the file alone keeps the invariant. -/
theorem clear_of_unchanged (h : Clear s) {l : Label} (hl : l.changes = none)
    (hnext : s.next l = some s') : Clear s' := by
  cases l with
  | launch p =>
      simp only [next] at hnext
      split at hnext
      · cases hnext
        exact h.setProc_of_blank nofun rfl
      · cases hnext
  | look p ok =>
      simp only [next] at hnext
      split at hnext
      · split at hnext
        · rename_i hmissing
          cases hnext
          exact h.unnamed (Nat.le_refl _) (fun q hq => nomatch hmissing.symm.trans hq) p
        · split at hnext
          · cases hnext
            refine h.setProc nofun (fun n hn => ?_) nofun nofun
            cases hn
            exact Nat.le_refl _
          · cases hnext
            exact h.unread p
      · cases hnext
  | read p ok =>
      simp only [next] at hnext
      split at hnext
      · rename_i covered hp
        have hcovered := h.seen p covered (by rw [hp]; rfl)
        split at hnext
        · split at hnext
          · rename_i named hfile
            cases hnext
            exact h.named hcovered hfile p
          · rename_i hunnamed
            cases hnext
            exact h.unnamed hcovered hunnamed p
        · cases hnext
          exact h.unread p
      · cases hnext
  | probe p permitted =>
      simp only [next] at hnext
      split at hnext
      · rename_i covered named hp
        split at hnext
        · cases hnext
          exact h.setProc_of_blank nofun rfl
        · rename_i hdead
          cases hnext
          exact h.dead hp hdead
      · cases hnext
  | remove p ok =>
      cases ok with
      | true => cases hl
      | false =>
          simp only [next] at hnext
          split at hnext
          · rename_i covered hp
            cases hnext
            exact h.start (h.seen p covered (by rw [hp]; rfl)) (h.missed p covered (by rw [hp]; rfl)) p
          · cases hnext
  | fail p =>
      simp only [next] at hnext
      split at hnext
      · cases hnext
        exact h.setProc_of_blank nofun rfl
      · cases hnext
  | daemonize p q =>
      simp only [next] at hnext
      split at hnext
      · rename_i covered hp hq
        cases hnext
        have hgone : Clear (s.setProc p .absent) := h.setProc_of_blank nofun rfl
        refine hgone.start (h.seen p covered (by rw [hp]; rfl)) (fun r written hr => ?_) q
        have hserves := (serving_of_setProc (v := .absent) nofun hr).2
        exact h.missed p covered (by rw [hp]; rfl) r written hserves
      · cases hnext
  | write p => cases hl
  | failWrite p truncated =>
      cases truncated with
      | true => cases hl
      | false =>
          simp only [next] at hnext
          split at hnext
          · cases hnext
            exact h.setProc_of_blank nofun rfl
          · cases hnext
  | finish p =>
      simp only [next] at hnext
      split at hnext
      · rename_i covered hp
        cases hnext
        exact h.stop hp
      · cases hnext
  | cleanup p ok =>
      cases ok with
      | true => cases hl
      | false =>
          simp only [next] at hnext
          split at hnext
          · cases hnext
            exact h.setProc_of_blank nofun rfl
          · cases hnext
  | crash p =>
      simp only [next] at hnext
      split at hnext
      · cases hnext
      · cases hnext
      · cases hnext
        exact h.setProc_of_blank nofun rfl
  | foreign p starts =>
      simp only [next] at hnext
      split at hnext
      · split at hnext
        · cases hnext
          exact h.setProc_of_blank nofun rfl
        · cases hnext
      · split at hnext
        · cases hnext
        · cases hnext
          exact h.setProc_of_blank nofun rfl
      · cases hnext

/-- A step that changes the file: whoever takes it has cleared the file, which then names no other
process, and if nobody is in service the invariant is kept. -/
theorem changed_spec {l : Label} (hl : l.changes = some p) (hnext : s.next l = some s') :
    ∃ n, (s.procs p).cleared = some n ∧
      (∀ q, q ≠ p → s'.procs q = s.procs q ∧ s'.file ≠ .pid q) ∧
      (Clear s → (∀ q, ¬ s.Serving q) → Clear s') := by
  cases l with
  | write p' =>
      cases hl
      simp only [next] at hnext
      split at hnext
      · rename_i covered hp
        cases hnext
        refine ⟨covered, by rw [hp]; rfl, fun q hq => ⟨setProc_procs_of_ne hq, ?_⟩, ?_⟩
        · exact fun hfile => hq (PidFile.pid.inj hfile).symm
        · exact fun h hidle => h.write hidle p
      · cases hnext
  | remove p' ok =>
      cases ok with
      | false => cases hl
      | true =>
          cases hl
          simp only [next] at hnext
          split at hnext
          · rename_i covered hp
            cases hnext
            refine ⟨covered, by rw [hp]; rfl, fun q hq => ⟨setProc_procs_of_ne hq, nofun⟩, ?_⟩
            intro h hidle
            exact (h.setFile hidle .missing).unnamed (h.seen p covered (by rw [hp]; rfl)) nofun p
          · cases hnext
  | failWrite p' truncated =>
      cases truncated with
      | false => cases hl
      | true =>
          cases hl
          simp only [next] at hnext
          split at hnext
          · rename_i covered hp
            cases hnext
            refine ⟨covered, by rw [hp]; rfl, fun q hq => ⟨setProc_procs_of_ne hq, nofun⟩, ?_⟩
            exact fun h hidle => (h.setFile hidle .garbage).setProc_of_blank nofun rfl
          · cases hnext
  | cleanup p' ok =>
      cases ok with
      | false => cases hl
      | true =>
          cases hl
          simp only [next] at hnext
          split at hnext
          · rename_i covered hp
            cases hnext
            refine ⟨covered, by rw [hp]; rfl, fun q hq => ⟨setProc_procs_of_ne hq, nofun⟩, ?_⟩
            exact fun h hidle => (h.setFile hidle .missing).setProc_of_blank nofun rfl
          · cases hnext
  | _ => cases hl

/-- From a state with the invariant, a step keeps the file truthful exactly when it is serialised, and
then it keeps the invariant. -/
theorem step_exact (h : Clear s) {l : Label} (hnext : s.next l = some s') :
    (Truthful s' ↔ Serialised s l) ∧ (Serialised s l → Clear s') := by
  cases hl : l.changes with
  | none =>
      have hclear := clear_of_unchanged h hl hnext
      refine ⟨⟨fun _ p n hp => ?_, fun _ => hclear.truthful⟩, fun _ => hclear⟩
      rw [hl] at hp
      cases hp
  | some p =>
      obtain ⟨n, hcleared, hothers, hkept⟩ := changed_spec hl hnext
      have hclear : Serialised s l → Clear s' := fun hserialised =>
        hkept h (h.idle hcleared (hserialised p n hl hcleared))
      refine ⟨⟨?_, fun hserialised => (hclear hserialised).truthful⟩, hclear⟩
      intro htruthful p' n' hp' hcleared' q written hq
      rw [hl] at hp'
      cases hp'
      -- whoever was in service still is, and the file does not name it any more
      obtain ⟨hsame, hfile⟩ := hothers q (ne_of_cleared hcleared hq)
      exact absurd (htruthful.recorded q ⟨written, hsame.trans hq⟩) hfile

theorem clear_init (h : lts.init s) : Clear s := by
  obtain ⟨hprocs, hwrites⟩ := h
  refine ⟨?_, ?_, ?_, ?_, ?_⟩
  all_goals
    intro p
    rcases hprocs p with hp | hp
    all_goals
      rw [hp]
      exact nofun

/-- In every run the file is truthful in every state if and only if every step is serialised. -/
theorem truthful_along_iff {s₀ t : Daemons} {ls : List Label} (hinit : lts.init s₀)
    (hrun : lts.Steps LTS.anyStep s₀ ls t) :
    lts.Along Truthful s₀ ls ↔ lts.Steps Serialised s₀ ls t :=
  hrun.along_iff (fun _ h => h.truthful) (fun _ _ _ h hnext => step_exact h hnext) (clear_init hinit)

/-- Nobody runs, and there is no file. -/
def quiet : Daemons := ⟨fun _ => .absent, .missing, 0⟩

/-- A process goes into service, another one finds it there and exits, and the first one is done. -/
def oneByOne : List Label :=
  [.launch 10, .look 10 true, .write 10, .launch 12, .look 12 true, .read 12 true, .probe 12 true,
    .finish 10, .cleanup 10 true]

theorem truthful_along_iff_oneByOne : lts.Along Truthful quiet oneByOne := by
  obtain ⟨t, hrun⟩ : ∃ t, lts.exec quiet oneByOne = some t := ⟨_, rfl⟩
  have hsteps := LTS.steps_of_exec hrun (LTS.guarded_anyStep _ _)
  have hinit : lts.init quiet := ⟨fun _ => .inl rfl, rfl⟩
  have hguarded : lts.Guarded Serialised quiet oneByOne := by
    refine ⟨nofun, nofun, ?_, nofun, nofun, nofun, nofun, nofun, ?_, trivial⟩
    · intro p n _ _ q written hq
      simp only [quiet, setProc, Function.update_apply] at hq
      split_ifs at hq
    · intro p n _ _ q written hq
      simp only [quiet, setProc, setFile, Function.update_apply] at hq
      split_ifs at hq
  exact (truthful_along_iff hinit hsteps).mpr (LTS.steps_of_exec hrun hguarded)

/-- Two processes look for the file before either has written it. -/
def bothStart : List Label :=
  [.launch 10, .launch 12, .look 10 true, .look 12 true, .write 10, .write 12, .finish 10,
    .cleanup 10 true]

/-- Both are in service, and when the first one is done it removes the file of the second. -/
theorem file_lost :
    ∃ s t, lts.exec quiet (bothStart.take 6) = some s ∧ s.Serving 10 ∧ s.Serving 12 ∧
      lts.exec quiet bothStart = some t ∧ t.Serving 12 ∧ t.file = .missing ∧
      ¬ lts.Along Truthful quiet bothStart := by
  refine ⟨_, _, rfl, ⟨1, rfl⟩, ⟨2, rfl⟩, rfl, ⟨2, rfl⟩, rfl, ?_⟩
  rintro ⟨_, _, _, _, _, _, htruthful, _⟩
  cases htruthful.single 10 12 ⟨1, rfl⟩ ⟨2, rfl⟩

end Daemons

end Bluecross
