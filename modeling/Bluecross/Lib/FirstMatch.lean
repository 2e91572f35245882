/-
# Bluecross.Lib.FirstMatch — the first match in a list whose order is not known.

A search that returns at the first match answers one thing in one order of the list and perhaps another
in another. `firstMatches` is the set of all its answers. Every match is one of them, as it may come
first, and there is no answer but if nothing matches; so the answer is settled if and only if all
matches agree (`firstMatches_subsingleton_iff`).
-/
import Mathlib.Data.List.Perm.Basic
import Mathlib.Data.Set.Subsingleton

namespace Bluecross.Lib

variable {α β : Type*} {f : α → Option β} {l : List α}

/-- What the search can answer, in some order of the list. -/
def firstMatches (f : α → Option β) (l : List α) : Set (Option β) :=
  {r | ∃ l' : List α, l'.Perm l ∧ l'.findSome? f = r}

theorem none_mem_firstMatches : none ∈ firstMatches f l ↔ ∀ a ∈ l, f a = none := by
  constructor
  · rintro ⟨l', hperm, hnone⟩ a ha
    exact List.findSome?_eq_none_iff.mp hnone a (hperm.mem_iff.mpr ha)
  · intro h
    exact ⟨l, .refl l, List.findSome?_eq_none_iff.mpr h⟩

theorem some_mem_firstMatches {b : β} : some b ∈ firstMatches f l ↔ ∃ a ∈ l, f a = some b := by
  constructor
  · rintro ⟨l', hperm, hsome⟩
    obtain ⟨a, ha, hb⟩ := List.exists_of_findSome?_eq_some hsome
    exact ⟨a, hperm.mem_iff.mp ha, hb⟩
  · rintro ⟨a, ha, hb⟩
    -- an order in which the match comes first
    obtain ⟨before, after, rfl⟩ := List.append_of_mem ha
    refine ⟨a :: (before ++ after), List.perm_middle.symm, ?_⟩
    rw [List.findSome?_cons, hb]

/-- No order has an answer where another has none. -/
theorem none_notMem_firstMatches {b : β} (h : some b ∈ firstMatches f l) :
    none ∉ firstMatches f l := by
  obtain ⟨a, ha, hb⟩ := some_mem_firstMatches.mp h
  intro hnone
  exact Option.some_ne_none b (hb.symm.trans (none_mem_firstMatches.mp hnone a ha))

/-- The answer does not depend on the order if and only if all matches agree. -/
theorem firstMatches_subsingleton_iff :
    (firstMatches f l).Subsingleton ↔
      ∀ a ∈ l, ∀ a' ∈ l, ∀ b b', f a = some b → f a' = some b' → b = b' := by
  constructor
  · intro h a ha a' ha' b b' hb hb'
    have hmem : some b ∈ firstMatches f l := some_mem_firstMatches.mpr ⟨a, ha, hb⟩
    have hmem' : some b' ∈ firstMatches f l := some_mem_firstMatches.mpr ⟨a', ha', hb'⟩
    exact Option.some.inj (h hmem hmem')
  · intro h r hr r' hr'
    cases r with
    | none =>
        cases r' with
        | none => rfl
        | some b' => exact absurd hr (none_notMem_firstMatches hr')
    | some b =>
        cases r' with
        | none => exact absurd hr' (none_notMem_firstMatches hr)
        | some b' =>
            obtain ⟨a, ha, hb⟩ := some_mem_firstMatches.mp hr
            obtain ⟨a', ha', hb'⟩ := some_mem_firstMatches.mp hr'
            rw [h a ha a' ha' b b' hb hb']

end Bluecross.Lib
