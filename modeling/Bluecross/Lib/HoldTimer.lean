/-
# Bluecross.Lib.HoldTimer — an action that has to be kept up for a while.

A hold timer is told `arm`, `keep` or `stop` at times that do not go back. `arm` starts it unless it
runs, `keep` leaves it as it is, `stop` stops it, and an `arm` that finds it running for `d` or longer
rings it and stops it. All that it remembers is since when it runs.

`HeldSince` says of a whole history what that one number stands for: at that time the timer was armed,
and it was neither stopped nor rung from then on. The timer runs since the first such time (`Tracks`),
so it rings exactly when some such time is `d` ago (`Tracks.rings_iff`).
-/
import Mathlib.Data.List.Basic

namespace Bluecross.Lib

/-- What an input does to the timer. -/
inductive Signal where
  | arm
  | keep
  | stop
  deriving DecidableEq, Repr

namespace HoldTimer

/-- What a timer that runs since then does on a signal: whether it rings, and since when it runs. -/
def step (d : Nat) (running : Option Nat) (signal : Signal) (now : Nat) : Bool × Option Nat :=
  match signal with
  | .arm =>
      let start := running.getD now
      if start + d ≤ now then (true, none) else (false, some start)
  | .keep => (false, running)
  | .stop => (false, none)

/-- How to read the entries of a history. -/
structure Reading (ε : Type*) where
  signal : ε → Signal
  time : ε → Nat
  rang : ε → Bool

variable {ε : Type*} {R : Reading ε} {log : List ε} {running : Option Nat} {d : Nat} {e : ε}

/-- The timer was armed at that time, and neither stopped nor rung since. -/
def Reading.HeldSince (R : Reading ε) (log : List ε) (t : Nat) : Prop :=
  ∃ before i between, log = before ++ i :: between ∧ R.signal i = .arm ∧ R.time i = t ∧
    ∀ e ∈ i :: between, R.signal e ≠ .stop ∧ R.rang e = false

/-- One more entry: it is held since before, or since the entry. -/
theorem heldSince_concat {t : Nat} :
    R.HeldSince (log ++ [e]) t ↔ (R.signal e ≠ .stop ∧ R.rang e = false) ∧
      (R.HeldSince log t ∨ R.signal e = .arm ∧ R.time e = t) := by
  constructor
  · rintro ⟨before, i, between, hsplit, harm, htime, hall⟩
    rcases List.eq_nil_or_concat between with rfl | ⟨between, last, rfl⟩
    · obtain ⟨rfl, hlast⟩ := List.append_inj' hsplit rfl
      obtain rfl := List.singleton_inj.mp hlast
      exact ⟨hall e (List.mem_singleton_self e), Or.inr ⟨harm, htime⟩⟩
    · rw [List.concat_eq_append, ← List.cons_append, ← List.append_assoc] at hsplit
      rw [List.concat_eq_append] at hall
      obtain ⟨rfl, hlast⟩ := List.append_inj' hsplit rfl
      obtain rfl := List.singleton_inj.mp hlast
      refine ⟨hall e (by simp), Or.inl ⟨before, i, between, rfl, harm, htime, ?_⟩⟩
      intro e' he'
      apply hall e'
      rw [← List.cons_append]
      exact List.mem_append_left _ he'
  · rintro ⟨hlast, ⟨before, i, between, rfl, harm, htime, hall⟩ | ⟨harm, htime⟩⟩
    · refine ⟨before, i, between ++ [e], by simp, harm, htime, ?_⟩
      intro e' he'
      rw [← List.cons_append] at he'
      rcases List.mem_append.mp he' with hold | hnew
      · exact hall e' hold
      · rw [List.mem_singleton.mp hnew]
        exact hlast
    · refine ⟨log, e, [], rfl, harm, htime, ?_⟩
      intro e' he'
      rw [List.mem_singleton.mp he']
      exact hlast

theorem Reading.HeldSince.mem {t : Nat} (h : R.HeldSince log t) : ∃ e ∈ log, R.time e = t := by
  obtain ⟨before, i, between, rfl, _, htime, _⟩ := h
  exact ⟨i, by simp, htime⟩

/-! ## The state stands for the history -/

/-- The timer runs since the first time since which it is held. -/
structure Tracks (R : Reading ε) (log : List ε) (running : Option Nat) : Prop where
  since : ∀ t, running = some t → R.HeldSince log t
  first : ∀ t, R.HeldSince log t → ∃ start, running = some start ∧ start ≤ t

theorem tracks_nil : Tracks R [] none := by
  refine ⟨nofun, ?_⟩
  rintro t ⟨before, i, between, hsplit, _⟩
  cases before <;> cases hsplit

/-- The timer rings when it is armed and some time since which it is held is long enough ago. -/
theorem Tracks.rings_iff (h : Tracks R log running) (hd : 0 < d) (signal : Signal) (now : Nat) :
    (step d running signal now).1 = true ↔
      signal = .arm ∧ ∃ t, R.HeldSince log t ∧ t + d ≤ now := by
  cases signal with
  | keep => exact ⟨nofun, nofun⟩
  | stop => exact ⟨nofun, nofun⟩
  | arm =>
      unfold step
      simp only [true_and]
      split
      · rename_i hlong
        refine ⟨fun _ => ?_, fun _ => rfl⟩
        cases running with
        | none =>
            rw [Option.getD_none] at hlong
            omega
        | some start => exact ⟨start, h.since start rfl, hlong⟩
      · rename_i hshort
        refine ⟨nofun, ?_⟩
        rintro ⟨t, hheld, hlong⟩
        obtain ⟨start, rfl, hfirst⟩ := h.first t hheld
        rw [Option.getD_some] at hshort
        omega

/-- An entry that says what the timer was told and what it did keeps the two together. -/
theorem Tracks.step (h : Tracks R log running) (hclock : ∀ e' ∈ log, R.time e' ≤ R.time e)
    (hrang : R.rang e = (step d running (R.signal e) (R.time e)).1) :
    Tracks R (log ++ [e]) (HoldTimer.step d running (R.signal e) (R.time e)).2 := by
  have hearlier : ∀ t, R.HeldSince log t → t ≤ R.time e := by
    intro t hheld
    obtain ⟨e', he', rfl⟩ := hheld.mem
    exact hclock e' he'
  cases hsignal : R.signal e with
  | stop =>
      refine ⟨nofun, ?_⟩
      intro t hheld
      exact absurd hsignal (heldSince_concat.mp hheld).1.1
  | keep =>
      have hquiet : R.rang e = false := by
        rw [hrang, hsignal]
        rfl
      refine ⟨?_, ?_⟩
      · intro t ht
        refine heldSince_concat.mpr ⟨⟨?_, hquiet⟩, Or.inl (h.since t ht)⟩
        rw [hsignal]
        nofun
      · intro t hheld
        rcases (heldSince_concat.mp hheld).2 with hold | ⟨harm, _⟩
        · exact h.first t hold
        · rw [hsignal] at harm
          cases harm
  | arm =>
      rw [hsignal] at hrang
      unfold HoldTimer.step at hrang ⊢
      simp only at hrang ⊢
      split at hrang
      · -- it rings: nothing is held any more
        rename_i hlong
        rw [if_pos hlong]
        refine ⟨nofun, ?_⟩
        intro t hheld
        have hquiet := (heldSince_concat.mp hheld).1.2
        rw [hrang] at hquiet
        cases hquiet
      · rename_i hshort
        rw [if_neg hshort]
        have hgoes : R.signal e ≠ .stop ∧ R.rang e = false := by
          rw [hsignal]
          exact ⟨nofun, hrang⟩
        refine ⟨?_, ?_⟩
        · intro t ht
          refine heldSince_concat.mpr ⟨hgoes, ?_⟩
          cases running with
          | none => exact Or.inr ⟨hsignal, Option.some.inj ht⟩
          | some start => exact Or.inl (h.since t ht)
        · intro t hheld
          rcases (heldSince_concat.mp hheld).2 with hold | ⟨_, rfl⟩
          · obtain ⟨start, rfl, hfirst⟩ := h.first t hold
            exact ⟨start, rfl, hfirst⟩
          · refine ⟨_, rfl, ?_⟩
            -- what runs already was started before
            cases running with
            | none => exact Nat.le_refl _
            | some start => exact hearlier start (h.since start rfl)

end HoldTimer

end Bluecross.Lib
