/-
# Bluecross.Lib.HubRegister — replicas of one value, kept by a hub without versions.

Every replica may be changed where it is. A change is reported to the hub, unless the value is the one
last seen there; the hub takes the reports of all replicas in some order, applies each at its own
replica and passes it on to the others, and what is passed on is applied in the order it was sent.
Nothing says which of two values is newer.

When everything has been delivered, the replicas hold the value the hub took last, but for the replica
it came from: there a value that was still coming may have been applied over it. `Inv.agree` is that
law. What it needs to know of a change is whether something was applied at the replica since
(`fresh`).
-/
import Mathlib.Logic.Function.Basic
import Bluecross.Lib.Transition

namespace Bluecross.Lib

universe u v

/-- One replica. Its own changes are kept with whether nothing was applied here since. -/
structure Replica (α : Type u) where
  held : α
  /-- The value last reported or applied. -/
  seen : α
  /-- Changes made here that are not reported. -/
  changes : List (α × Bool)
  /-- Changes that are reported, and that the hub is still to take. -/
  way : List (α × Bool)
  /-- Values from the hub that are still to be applied. -/
  inbox : List α
  /-- The value was put here, not applied. -/
  own : Bool

/-- A value the hub took. -/
structure Update (ν : Type v) (α : Type u) where
  value : α
  origin : ν
  /-- Nothing was applied at the origin since the change was made there. -/
  fresh : Bool

/-- The replicas, and the hub between them. -/
structure HubRegister (ν : Type v) (α : Type u) where
  replica : ν → Replica α
  /-- What the hub took last. -/
  latest : Option (Update ν α)

variable {ν : Type v} {α : Type u}

namespace Replica

variable {r : Replica α} {v : α}

/-- A value is set at the replica itself. -/
def change (r : Replica α) (v : α) : Replica α :=
  { r with held := v, changes := r.changes ++ [(v, true)], own := true }

/-- Report the first change, unless its value was seen last. -/
def report [DecidableEq α] (r : Replica α) : Option (Replica α) :=
  match r.changes with
  | [] => none
  | e :: rest =>
      if r.seen = e.1 then some { r with changes := rest }
      else some { r with seen := e.1, changes := rest, way := r.way ++ [e] }

/-- Apply a value: what was changed here before is not fresh any more. -/
def apply (r : Replica α) (v : α) : Replica α :=
  { r with
    held := v
    seen := v
    changes := r.changes.map fun e => (e.1, false)
    way := r.way.map fun e => (e.1, false)
    own := false }

/-- The hub sends a value to the replica. -/
def queue (r : Replica α) (v : α) : Replica α := { r with inbox := r.inbox ++ [v] }

/-- Nothing is on its way from or to the replica. -/
structure Quiet (r : Replica α) : Prop where
  changes : r.changes = []
  way : r.way = []
  inbox : r.inbox = []

/-! ## What holds of one replica -/

/-- The own changes lead to the value held and to the value seen. -/
structure Tracked (r : Replica α) : Prop where
  last : r.own = true → ∀ e, r.changes.getLast? = some e → e.1 = r.held
  told : r.own = true → r.changes = [] → r.seen = r.held
  reported : ∀ v, r.way.getLast? = some (v, true) → r.seen = v
  fresh : ∀ e ∈ r.changes ++ r.way, e.2 = true → r.own = true

/-- The value is held, or is the last to come. -/
structure Follows (r : Replica α) (v : α) : Prop where
  coming : ∀ w, r.inbox.getLast? = some w → w = v
  applied : r.inbox = [] → r.own = false → r.held = v
  seen : r.inbox = [] → r.way = [] → r.seen = v

/-- The value was put here, and none came over it. -/
structure Leads (r : Replica α) (v : α) : Prop where
  own : r.own = true
  seen : r.way = [] → r.seen = v

/-- The last change stays the last, as long as there is one. -/
theorem getLast?_of_cons {e f : α × Bool} {rest : List (α × Bool)} (h : rest.getLast? = some f) :
    (e :: rest).getLast? = some f := by
  cases rest with
  | nil => cases h
  | cons d rest => exact h

theorem Tracked.change (h : r.Tracked) (v : α) : (r.change v).Tracked := by
  refine ⟨?_, ?_, h.reported, fun _ _ _ => rfl⟩
  · intro _ e he
    have hlast : some (v, true) = some e := List.getLast?_concat.symm.trans he
    cases hlast
    rfl
  · intro _ hnone
    exact absurd hnone (List.append_ne_nil_of_right_ne_nil _ (List.cons_ne_nil _ _))

/-- Nothing that was changed here before a value is applied is fresh after it. -/
theorem tracked_apply (r : Replica α) (v : α) : (r.apply v).Tracked := by
  have hstale : ∀ (l : List (α × Bool)), ∀ e ∈ l.map (fun e => (e.1, false)), e.2 = false := by
    intro l e he
    obtain ⟨e', _, rfl⟩ := List.mem_map.mp he
    rfl
  refine ⟨nofun, nofun, ?_, ?_⟩
  · intro w hw
    have := hstale r.way _ (List.mem_of_getLast? hw)
    cases this
  · intro e he hfresh
    rcases List.mem_append.mp he with hin | hin
    · rw [hstale _ e hin] at hfresh
      cases hfresh
    · rw [hstale _ e hin] at hfresh
      cases hfresh

section

variable [DecidableEq α] {r' : Replica α}

/-- A report: the first change is dropped as seen, or goes on its way. -/
theorem report_cases (h : r.report = some r') :
    ∃ e rest, r.changes = e :: rest ∧
      (r.seen = e.1 ∧ r' = { r with changes := rest } ∨
        r' = { r with seen := e.1, changes := rest, way := r.way ++ [e] }) := by
  unfold report at h
  split at h
  · cases h
  · rename_i e rest hchanges
    refine ⟨e, rest, hchanges, ?_⟩
    split at h
    · rename_i hseen
      exact Or.inl ⟨hseen, (Option.some.inj h).symm⟩
    · exact Or.inr (Option.some.inj h).symm

theorem Tracked.report (h : r.Tracked) (hr : r.report = some r') : r'.Tracked := by
  obtain ⟨e, rest, hchanges, hcases⟩ := report_cases hr
  have hheld : r.own = true → rest = [] → e.1 = r.held := by
    rintro hown rfl
    exact h.last hown e (by rw [hchanges]; rfl)
  have hlast : r.own = true → ∀ f, rest.getLast? = some f → f.1 = r.held := by
    intro hown f hf
    apply h.last hown f
    rw [hchanges]
    exact getLast?_of_cons hf
  have hfresh : ∀ f ∈ rest ++ (r.way ++ [e]), f.2 = true → r.own = true := by
    intro f hf
    apply h.fresh f
    rw [hchanges]
    simp only [List.mem_append, List.mem_cons, List.not_mem_nil, or_false] at hf ⊢
    tauto
  rcases hcases with ⟨hseen, rfl⟩ | rfl
  -- not reported: it was seen, so the value seen is the one held even if nothing is left
  · refine ⟨hlast, ?_, h.reported, ?_⟩
    · intro hown hnone
      exact hseen.trans (hheld hown hnone)
    · intro f hf
      apply hfresh f
      rw [← List.append_assoc]
      exact List.mem_append_left _ hf
  · refine ⟨hlast, hheld, ?_, hfresh⟩
    intro w hw
    have hsame : some e = some (w, true) := List.getLast?_concat.symm.trans hw
    cases hsame
    rfl

theorem Follows.report (h : r.Follows v) (hr : r.report = some r') : r'.Follows v := by
  obtain ⟨e, rest, _, ⟨_, rfl⟩ | rfl⟩ := report_cases hr
  · exact ⟨h.coming, h.applied, h.seen⟩
  · refine ⟨h.coming, h.applied, ?_⟩
    intro _ hnone
    exact absurd hnone (List.append_ne_nil_of_right_ne_nil _ (List.cons_ne_nil _ _))

theorem Leads.report (h : r.Leads v) (hr : r.report = some r') : r'.Leads v := by
  obtain ⟨e, rest, _, ⟨_, rfl⟩ | rfl⟩ := report_cases hr
  · exact ⟨h.own, h.seen⟩
  · refine ⟨h.own, ?_⟩
    intro hnone
    exact absurd hnone (List.append_ne_nil_of_right_ne_nil _ (List.cons_ne_nil _ _))

end

theorem Follows.change (h : r.Follows v) (w : α) : (r.change w).Follows v :=
  ⟨h.coming, nofun, h.seen⟩

theorem Leads.change (h : r.Leads v) (w : α) : (r.change w).Leads v := ⟨rfl, h.seen⟩

/-- A replica that is sent a value follows it. -/
theorem follows_queue (r : Replica α) (v : α) : (r.queue v).Follows v := by
  have hne : r.inbox ++ [v] ≠ [] := List.append_ne_nil_of_right_ne_nil _ (List.cons_ne_nil _ _)
  refine ⟨?_, fun hnone => absurd hnone hne, fun hnone => absurd hnone hne⟩
  intro w hw
  have hlast : some v = some w := List.getLast?_concat.symm.trans hw
  exact (Option.some.inj hlast).symm

/-- A replica that has nothing else to come follows what is applied. -/
theorem follows_apply (hinbox : r.inbox = []) (v : α) : (r.apply v).Follows v := by
  refine ⟨?_, fun _ _ => rfl, fun _ _ => rfl⟩
  intro w hw
  rw [show (r.apply v).inbox = [] from hinbox] at hw
  cases hw

/-- Applying what comes first keeps what comes last. -/
theorem Follows.deliver (h : r.Follows v) {w : α} {rest : List α} (hinbox : r.inbox = w :: rest) :
    ({ r with inbox := rest }.apply w).Follows v := by
  have hone : rest = [] → w = v := by
    rintro rfl
    exact h.coming w (by rw [hinbox]; rfl)
  refine ⟨?_, fun hnone _ => hone hnone, fun hnone _ => hone hnone⟩
  intro x hx
  apply h.coming x
  rw [hinbox]
  cases rest with
  | nil => cases hx
  | cons d rest => exact hx

/-- The change that the hub takes first leaves the way. -/
theorem Tracked.take (h : r.Tracked) {e : α × Bool} {rest : List (α × Bool)}
    (hway : r.way = e :: rest) : ({ r with way := rest } : Replica α).Tracked := by
  refine ⟨h.last, h.told, ?_, ?_⟩
  · intro v hv
    apply h.reported v
    rw [hway]
    exact getLast?_of_cons hv
  · intro f hf
    apply h.fresh f
    rw [hway]
    rcases List.mem_append.mp hf with hin | hin
    · exact List.mem_append_left _ hin
    · exact List.mem_append_right _ (List.mem_cons_of_mem e hin)

theorem Tracked.leads (h : r.Tracked) {v : α} {rest : List (α × Bool)}
    (hway : r.way = (v, true) :: rest) : ({ r with way := rest } : Replica α).Leads v := by
  refine ⟨?_, ?_⟩
  · apply h.fresh (v, true) _ rfl
    rw [hway]
    exact List.mem_append_right _ (List.mem_cons_self ..)
  · rintro rfl
    exact h.reported v (by rw [hway]; rfl)

/-- A replica at rest holds the value it follows. -/
theorem Follows.held (h : r.Follows v) (htracked : r.Tracked) (hquiet : r.Quiet) : r.held = v := by
  cases hown : r.own with
  | false => exact h.applied hquiet.inbox hown
  | true => exact (htracked.told hown hquiet.changes).symm.trans (h.seen hquiet.inbox hquiet.way)

theorem Leads.held (h : r.Leads v) (htracked : r.Tracked) (hquiet : r.Quiet) : r.held = v :=
  (htracked.told h.own hquiet.changes).symm.trans (h.seen hquiet.way)

end Replica

namespace HubRegister

/-- A step of one replica, or of the hub towards one. -/
inductive Label (ν : Type v) (α : Type u) where
  | change (n : ν) (v : α)
  | report (n : ν)
  /-- The hub takes what the replica reported first. -/
  | process (n : ν)
  /-- The replica applies what the hub sent first. -/
  | deliver (n : ν)

/-- Another state for one replica. -/
def set [DecidableEq ν] (s : HubRegister ν α) (n : ν) (r : Replica α) : HubRegister ν α :=
  { s with replica := Function.update s.replica n r }

/-- The replicas after the hub has taken a value from one of them. -/
def relay [DecidableEq ν] (hub : ν) (s : HubRegister ν α) (n : ν) (v : α) (rest : List (α × Bool))
    (m : ν) : Replica α :=
  if m = n then { s.replica m with way := rest }
  else if m = hub then (s.replica m).apply v
  else (s.replica m).queue v

/-- The register after a replica has applied the first value of its inbox. -/
def delivered [DecidableEq ν] (s : HubRegister ν α) (n : ν) (v : α) (rest : List α) :
    HubRegister ν α :=
  { s.set n ({ s.replica n with inbox := rest }.apply v) with
    latest := s.latest.map fun u => if u.origin = n then { u with fresh := false } else u }

/-- What a step makes of the register; one of the replicas is the hub's own. -/
def next [DecidableEq ν] [DecidableEq α] (hub : ν) (s : HubRegister ν α) :
    Label ν α → Option (HubRegister ν α)
  | .change n v => some (s.set n ((s.replica n).change v))
  | .report n => (s.replica n).report.map (s.set n)
  | .process n =>
      match (s.replica n).way with
      | [] => none
      | e :: rest => some ⟨relay hub s n e.1 rest, some ⟨e.1, n, e.2⟩⟩
  | .deliver n =>
      match (s.replica n).inbox with
      | [] => none
      | v :: rest => some (s.delivered n v rest)

/-- The register, from replicas that are at rest. -/
def lts [DecidableEq ν] [DecidableEq α] (hub : ν) : LTS (HubRegister ν α) (Label ν α) where
  init s := (∀ n, (s.replica n).Quiet ∧ (s.replica n).own = false) ∧ s.latest = none
  next := next hub

/-! ## The invariant -/

variable {hub : ν} {s s' : HubRegister ν α}

/-- What holds in every state that is reached. -/
structure Inv (hub : ν) (s : HubRegister ν α) : Prop where
  tracked : ∀ n, (s.replica n).Tracked
  hub : (s.replica hub).inbox = []
  follows : ∀ u, s.latest = some u → ∀ n, n ≠ u.origin → (s.replica n).Follows u.value
  leads : ∀ u, s.latest = some u → u.fresh = true → (s.replica u.origin).Leads u.value

/-- When all replicas are at rest they hold what the hub took last, but for the origin, which holds it
if nothing was applied there since. -/
theorem Inv.agree (h : Inv hub s) (hquiet : ∀ n, (s.replica n).Quiet) {u : Update ν α}
    (hu : s.latest = some u) :
    (∀ n, n ≠ u.origin → (s.replica n).held = u.value) ∧
      (u.fresh = true → (s.replica u.origin).held = u.value) := by
  refine ⟨?_, ?_⟩
  · intro n hn
    exact (h.follows u hu n hn).held (h.tracked n) (hquiet n)
  · intro hfresh
    exact (h.leads u hu hfresh).held (h.tracked _) (hquiet _)

section

variable [DecidableEq ν]

/-- A step of one replica alone. -/
theorem Inv.set (h : Inv hub s) {n : ν} {r : Replica α} (htracked : r.Tracked)
    (hinbox : (s.replica n).inbox = [] → r.inbox = [])
    (hfollows : ∀ v, (s.replica n).Follows v → r.Follows v)
    (hleads : ∀ v, (s.replica n).Leads v → r.Leads v) : Inv hub (s.set n r) := by
  have hself : (s.set n r).replica n = r := Function.update_self ..
  have hother : ∀ m, m ≠ n → (s.set n r).replica m = s.replica m :=
    fun m hm => Function.update_of_ne hm ..
  refine ⟨?_, ?_, ?_, ?_⟩
  · intro m
    by_cases hm : m = n
    · rw [hm, hself]
      exact htracked
    · rw [hother m hm]
      exact h.tracked m
  · by_cases hn : hub = n
    · rw [hn, hself]
      exact hinbox (hn ▸ h.hub)
    · rw [hother hub hn]
      exact h.hub
  · intro u hu m hm
    by_cases hmn : m = n
    · rw [hmn, hself]
      exact hfollows _ (h.follows u hu n (hmn ▸ hm))
    · rw [hother m hmn]
      exact h.follows u hu m hm
  · intro u hu hfresh
    by_cases hn : u.origin = n
    · rw [hn, hself]
      exact hleads _ (hn ▸ h.leads u hu hfresh)
    · rw [hother _ hn]
      exact h.leads u hu hfresh

theorem Inv.process (h : Inv hub s) {n : ν} {e : α × Bool} {rest : List (α × Bool)}
    (hway : (s.replica n).way = e :: rest) :
    Inv hub ⟨relay hub s n e.1 rest, some ⟨e.1, n, e.2⟩⟩ := by
  refine ⟨?_, ?_, ?_, ?_⟩
  · intro m
    show (relay hub s n e.1 rest m).Tracked
    unfold relay
    split
    · rename_i hm
      subst hm
      exact (h.tracked m).take hway
    · split
      · exact Replica.tracked_apply (s.replica m) e.1
      · have htracked := h.tracked m
        exact ⟨htracked.last, htracked.told, htracked.reported, htracked.fresh⟩
  · show (relay hub s n e.1 rest hub).inbox = []
    unfold relay
    split
    · exact h.hub
    · rw [if_pos rfl]
      exact h.hub
  -- whatever was still to come at a replica, the value taken now comes after it
  · rintro u hu m hm
    cases hu
    show (relay hub s n e.1 rest m).Follows e.1
    rw [relay, if_neg hm]
    split
    · rename_i hhub
      subst hhub
      exact Replica.follows_apply h.hub e.1
    · exact (s.replica m).follows_queue e.1
  -- the origin is passed over, so only its own state speaks for it
  · rintro u hu hfresh
    cases hu
    show (relay hub s n e.1 rest n).Leads e.1
    rw [relay, if_pos rfl]
    obtain ⟨v, f⟩ := e
    obtain rfl : f = true := hfresh
    exact (h.tracked n).leads hway

theorem Inv.deliver (h : Inv hub s) {n : ν} {v : α} {rest : List α}
    (hinbox : (s.replica n).inbox = v :: rest) : Inv hub (s.delivered n v rest) := by
  have hself : (s.set n ({ s.replica n with inbox := rest }.apply v)).replica n
      = { s.replica n with inbox := rest }.apply v := Function.update_self ..
  have hother : ∀ m, m ≠ n →
      (s.set n ({ s.replica n with inbox := rest }.apply v)).replica m = s.replica m :=
    fun m hm => Function.update_of_ne hm ..
  have hlatest : ∀ {u}, (s.delivered n v rest).latest = some u → ∃ u₀, s.latest = some u₀ ∧
      u.value = u₀.value ∧ u.origin = u₀.origin ∧
        (u.fresh = true → u₀.fresh = true ∧ u₀.origin ≠ n) := by
    intro u hu
    obtain ⟨u₀, hu₀, heq⟩ := Option.map_eq_some_iff.mp hu
    refine ⟨u₀, hu₀, ?_⟩
    split at heq
    · subst heq
      exact ⟨rfl, rfl, nofun⟩
    · rename_i hne
      subst heq
      exact ⟨rfl, rfl, fun hfresh => ⟨hfresh, hne⟩⟩
  refine ⟨?_, ?_, ?_, ?_⟩
  · intro m
    by_cases hm : m = n
    · subst hm
      show ((s.set m _).replica m).Tracked
      rw [hself]
      exact Replica.tracked_apply { s.replica m with inbox := rest } v
    · show ((s.set n _).replica m).Tracked
      rw [hother m hm]
      exact h.tracked m
  -- the hub applies what it takes at once and is sent nothing
  · have hn : hub ≠ n := by
      rintro rfl
      rw [h.hub] at hinbox
      cases hinbox
    show ((s.set n _).replica hub).inbox = []
    rw [hother hub hn]
    exact h.hub
  · intro u hu m hm
    obtain ⟨u₀, hu₀, hvalue, horigin, _⟩ := hlatest hu
    rw [hvalue]
    rw [horigin] at hm
    show ((s.set n _).replica m).Follows u₀.value
    by_cases hmn : m = n
    · subst hmn
      rw [hself]
      exact (h.follows u₀ hu₀ m hm).deliver hinbox
    · rw [hother m hmn]
      exact h.follows u₀ hu₀ m hm
  · intro u hu hfresh
    obtain ⟨u₀, hu₀, hvalue, horigin, hkept⟩ := hlatest hu
    obtain ⟨hfresh₀, hne⟩ := hkept hfresh
    rw [hvalue, horigin]
    show ((s.set n _).replica u₀.origin).Leads u₀.value
    rw [hother _ hne]
    exact h.leads u₀ hu₀ hfresh₀

variable [DecidableEq α]

theorem Inv.step {l : Label ν α} (h : Inv hub s) (hnext : s.next hub l = some s') : Inv hub s' := by
  cases l with
  | change n v =>
      cases hnext
      exact h.set ((h.tracked n).change v) id (fun w hw => hw.change v) fun w hw => hw.change v
  | report n =>
      obtain ⟨r, hr, rfl⟩ := Option.map_eq_some_iff.mp hnext
      refine h.set ((h.tracked n).report hr) ?_ (fun w hw => hw.report hr) fun w hw => hw.report hr
      intro hinbox
      obtain ⟨e, rest, _, ⟨_, rfl⟩ | rfl⟩ := Replica.report_cases hr
      · exact hinbox
      · exact hinbox
  | process n =>
      simp only [next] at hnext
      split at hnext
      · cases hnext
      · rename_i e rest hway
        cases hnext
        exact h.process hway
  | deliver n =>
      simp only [next] at hnext
      split at hnext
      · cases hnext
      · rename_i v rest hinbox
        cases hnext
        exact h.deliver hinbox

theorem inv_of_init (h : (lts hub).init s) : Inv hub s := by
  obtain ⟨hrest, hlatest⟩ := h
  refine ⟨?_, (hrest hub).1.inbox, ?_, ?_⟩
  · intro n
    obtain ⟨hquiet, hown⟩ := hrest n
    refine ⟨?_, ?_, ?_, ?_⟩
    · rw [hown]
      nofun
    · rw [hown]
      nofun
    · rw [hquiet.way]
      nofun
    · rw [hquiet.changes, hquiet.way]
      nofun
  · rw [hlatest]
    nofun
  · rw [hlatest]
    nofun

theorem inv_reach {G : HubRegister ν α → Label ν α → Prop} (h : (lts hub).Reach G s) : Inv hub s := by
  refine h.invariant (fun _ => inv_of_init) ?_
  intro s l s' hs _ hnext
  exact hs.step hnext

end

end HubRegister

end Bluecross.Lib
