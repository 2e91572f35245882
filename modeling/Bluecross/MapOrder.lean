/-
# Bluecross.MapOrder — when the order of the client map decides who gets control.

`check_edge` returns at the first client, in the order of its map, whose edge the cursor is at, and that
order is unspecified. What it can answer is the set of first matches under an unknown order
(`answers_eq`), so its choice is settled if and only if the cursor is at the edge of one client at most.

Where two edges meet is a matter of geometry (`apart_iff`): edges that cross meet in their corner, an
edge meets itself, and opposite ones meet as soon as their trigger zones overlap. A negative threshold
is reached from nowhere, or, where the trigger of a far edge wraps, from everywhere. So of all the
configurations that load, those that settle the choice at every cursor are the ones whose registered
clients are pairwise apart (`one_choice_iff`).
-/
import Bluecross.Lib.FirstMatch
import Bluecross.Admission
import Bluecross.Bounce

namespace Bluecross

open Lib

/-! ## Edges of one screen -/

namespace ScreenPosition

/-- The edge across the screen. -/
def opposite : ScreenPosition → ScreenPosition
  | .left => .right
  | .right => .left
  | .top => .bottom
  | .bottom => .top

theorem far_opposite (p : ScreenPosition) : p.opposite.far = !p.far := by
  cases p <;> rfl

theorem across_opposite {α : Type} (p : ScreenPosition) (a b : α) :
    p.opposite.across a b = p.across a b := by
  cases p <;> rfl

/-- Two edges are the same, opposite, or at right angles. -/
theorem eq_or_opposite_or_crossing (p q : ScreenPosition) :
    q = p ∨ q = p.opposite ∨ ∀ {α : Type} (a b : α), q.across a b = p.along a b := by
  cases p <;> cases q <;> simp [opposite, across, along]

end ScreenPosition

/-- Any order of the entries of one map is the order of some iteration. -/
theorem HashOrder.exists_eq {τ : Type} {clients : Clients τ} {l : List (String × ClientInfo τ)}
    (h : l.Perm (clients.entries.map fun e => (e.1, e.2))) :
    ∃ order : HashOrder τ, order.1 clients = l := by
  classical
  refine ⟨⟨fun c => if c = clients then l else (HashOrder.entries τ).1 c, fun c => ?_⟩, if_pos rfl⟩
  by_cases hc : c = clients
  · simp only [if_pos hc]
    rw [hc]
    exact h
  · simp only [if_neg hc]
    exact (HashOrder.entries τ).2 c

namespace Server

variable {τ : Type} {s : Server τ} {config : ServerConfig} {x y : Int32} {p q : ScreenPosition}

/-! ## What can be chosen -/

/-- The registered clients are configured ones, at their configured positions. -/
def Configured (s : Server τ) : Prop :=
  ∀ name client, s.clients.lookup name = some client →
    s.config.clients.lookup name = some client.position

/-- The cursor is at the edge of the client registered under this name. -/
def AtEdge (s : Server τ) (x y : Int32) (name : String) : Prop :=
  ∃ client, s.clients.lookup name = some client ∧ triggers s.config x y client.position

/-- What `check_edge` answers, in some order of the map. -/
def answers (s : Server τ) (x y : Int32) : Set (Option (String × Int32 × Int32)) :=
  {r | ∃ env : Env τ, s.checkEdge env x y = r}

/-- Every two orders of the map give the same name and entry point, or none. -/
def OneChoice (s : Server τ) (x y : Int32) : Prop :=
  ∀ env env' : Env τ, s.checkEdge env x y = s.checkEdge env' x y

theorem answers_eq :
    s.answers x y = firstMatches (fun entry => edgeOf s.config x y entry.1 entry.2)
      ((HashOrder.entries τ).1 s.clients) := by
  ext r
  constructor
  · rintro ⟨env, hanswer⟩
    exact ⟨env.order.1 s.clients, env.order.2 s.clients, hanswer⟩
  · rintro ⟨l, hperm, hanswer⟩
    obtain ⟨order, rfl⟩ := HashOrder.exists_eq hperm
    exact ⟨⟨0, order⟩, hanswer⟩

/-- An answer is that of a client whose edge the cursor is at, and each of them may be it. -/
theorem some_mem_answers {name : String} {entry : Int32 × Int32} :
    some (name, entry) ∈ s.answers x y ↔
      ∃ client, s.clients.lookup name = some client ∧ triggers s.config x y client.position ∧
        entryOf s.config x y client = entry := by
  rw [answers_eq, some_mem_firstMatches]
  constructor
  · rintro ⟨⟨n, client⟩, hmem, hedge⟩
    obtain ⟨rfl, htriggers, hentry⟩ := edgeOf_eq_some.mp hedge
    exact ⟨client, (HashOrder.entries τ).mem_iff.mp hmem, htriggers, hentry⟩
  · rintro ⟨client, hclient, htriggers, rfl⟩
    refine ⟨(name, client), (HashOrder.entries τ).mem_iff.mpr hclient, ?_⟩
    exact edgeOf_eq_some.mpr ⟨rfl, htriggers, rfl⟩

theorem oneChoice_iff_subsingleton : s.OneChoice x y ↔ (s.answers x y).Subsingleton := by
  constructor
  · rintro h _ ⟨env, rfl⟩ _ ⟨env', rfl⟩
    exact h env env'
  · intro h env env'
    exact h ⟨env, rfl⟩ ⟨env', rfl⟩

/-- The choice is settled if and only if the cursor is at the edge of one client at most. -/
theorem oneChoice_iff :
    s.OneChoice x y ↔ ∀ n m, s.AtEdge x y n → s.AtEdge x y m → n = m := by
  rw [oneChoice_iff_subsingleton]
  constructor
  · rintro h n m ⟨c, hc, hn⟩ ⟨d, hd, hm⟩
    have hfirst : some (n, entryOf s.config x y c) ∈ s.answers x y :=
      some_mem_answers.mpr ⟨c, hc, hn, rfl⟩
    have hsecond : some (m, entryOf s.config x y d) ∈ s.answers x y :=
      some_mem_answers.mpr ⟨d, hd, hm, rfl⟩
    exact congrArg Prod.fst (Option.some.inj (h hfirst hsecond))
  · intro h
    rw [answers_eq, firstMatches_subsingleton_iff]
    -- two matches are of one name, so of one client
    rintro ⟨n, c⟩ hn ⟨m, d⟩ hm ⟨_, entry⟩ ⟨_, entry'⟩ hfirst hsecond
    have hc := (HashOrder.entries τ).mem_iff.mp hn
    have hd := (HashOrder.entries τ).mem_iff.mp hm
    obtain ⟨rfl, hatc, rfl⟩ := edgeOf_eq_some.mp hfirst
    obtain ⟨rfl, hatd, rfl⟩ := edgeOf_eq_some.mp hsecond
    obtain rfl := h n m ⟨c, hc, hatc⟩ ⟨d, hd, hatd⟩
    rw [hc] at hd
    cases hd
    rfl

/-- Where the choice is settled, captured input is handled in one way. -/
theorem handleInput_of_oneChoice {χ : Type} [Mailbox χ τ] (ch : χ) (ev : CaptureEvent)
    (h : ∀ dx dy, ev = .mouseMove dx dy →
      s.OneChoice (s.moveCursor dx dy).mouseX (s.moveCursor dx dy).mouseY)
    {env env' : Env τ} (hnow : env.now = env'.now) :
    s.handleInput env ch ev = s.handleInput env' ch ev := by
  cases ev with
  | mouseMove dx dy =>
      have hedge : (s.moveCursor dx dy).checkEdge env (s.moveCursor dx dy).mouseX
          (s.moveCursor dx dy).mouseY = (s.moveCursor dx dy).checkEdge env'
            (s.moveCursor dx dy).mouseX (s.moveCursor dx dy).mouseY := h dx dy rfl env env'
      simp only [handleInput, hedge, forwardMotion, hnow]
  | key code value => rfl
  | mouseButton code value => rfl
  | mouseScroll dx dy => rfl

/-! ## Where two edges meet -/

/-- No cursor in the screen is at both edges: they are opposite and their zones do not overlap, or the
threshold is negative and not both of them wrap. -/
def Apart (config : ServerConfig) (p q : ScreenPosition) : Prop :=
  (0 ≤ config.edgeThreshold.toInt ∧ q = p.opposite ∧
      2 * config.edgeThreshold.toInt + 1 < (acrossSize config p).toInt) ∨
    (config.edgeThreshold.toInt < 0 ∧ ¬ (Overruns config p ∧ Overruns config q))

instance (config : ServerConfig) (p q : ScreenPosition) : Decidable (Apart config p q) :=
  inferInstanceAs (Decidable (_ ∨ _))

/-- The zones of opposite edges overlap between their two triggers. -/
theorem triggers_opposite_iff (hsized : config.Sized) (hnonneg : 0 ≤ config.edgeThreshold.toInt) :
    triggers config x y p ∧ triggers config x y p.opposite ↔
      (acrossSize config p).toInt - config.edgeThreshold.toInt - 1 ≤ (p.across x y).toInt ∧
        (p.across x y).toInt ≤ config.edgeThreshold.toInt := by
  have hsize : acrossSize config p.opposite = acrossSize config p := p.across_opposite ..
  rw [triggers_iff (thresholdFits_of_nonneg hsized hnonneg),
    triggers_iff (thresholdFits_of_nonneg hsized hnonneg), hsize, p.far_opposite, p.across_opposite]
  cases p.far with
  | false => exact and_comm
  | true => exact Iff.rfl

/-- Triggers that overlap do so in the screen. -/
theorem exists_between {size threshold : Int32} (hsize : 0 < size) (hnonneg : 0 ≤ threshold.toInt)
    (hoverlap : size.toInt ≤ 2 * threshold.toInt + 1) :
    ∃ a, InScreen a size ∧ size.toInt - threshold.toInt - 1 ≤ a.toInt ∧
      a.toInt ≤ threshold.toInt := by
  by_cases hinside : threshold.toInt < size.toInt
  · exact ⟨threshold, inScreen_iff.mpr ⟨hnonneg, hinside⟩, by omega, Int.le_refl _⟩
  · refine ⟨0, ⟨Int32.le_refl 0, hsize⟩, ?_, hnonneg⟩
    rw [Int32.toInt_zero]
    omega

/-- Edges at right angles meet in their corner. -/
theorem triggers_corner (hsized : config.Sized) (hnonneg : 0 ≤ config.edgeThreshold.toInt)
    (hcross : ∀ {α : Type} (a b : α), q.across a b = p.along a b) :
    ∃ x y, InScreen x config.screenWidth ∧ InScreen y config.screenHeight ∧
      triggers config x y p ∧ triggers config x y q := by
  have hsize : acrossSize config q = alongSize config p := hcross ..
  obtain ⟨hx, hy⟩ := point_inScreen (outermost_inScreen hsized p)
    (hsize ▸ outermost_inScreen hsized q)
  refine ⟨_, _, hx, hy, ?_, ?_⟩
  · exact triggers_outermost hsized hnonneg (p.across_point ..)
  · exact triggers_outermost hsized hnonneg ((hcross ..).trans (p.along_point ..))

/-- With a threshold that is not negative, only opposite edges can be apart. -/
theorem opposite_iff_of_nonneg (hsized : config.Sized) (hnonneg : 0 ≤ config.edgeThreshold.toInt) :
    (q = p.opposite ∧ 2 * config.edgeThreshold.toInt + 1 < (acrossSize config p).toInt) ↔
      ∀ x y, InScreen x config.screenWidth → InScreen y config.screenHeight →
        ¬ (triggers config x y p ∧ triggers config x y q) := by
  constructor
  · rintro ⟨rfl, hclear⟩ x y _ _ hboth
    obtain ⟨hfar, hnear⟩ := (triggers_opposite_iff hsized hnonneg).mp hboth
    omega
  · intro h
    rcases p.eq_or_opposite_or_crossing q with rfl | rfl | hcross
    · obtain ⟨x, y, hx, hy, htriggers⟩ := edgeReachable_of_nonneg (p := q) hsized hnonneg
      exact absurd ⟨htriggers, htriggers⟩ (h x y hx hy)
    · refine ⟨rfl, ?_⟩
      by_contra hoverlap
      rw [Int.not_lt] at hoverlap
      obtain ⟨a, ha, hbetween⟩ := exists_between (acrossSize_pos hsized p) hnonneg hoverlap
      have hzero : InScreen 0 (alongSize config p) := ⟨Int32.le_refl 0, alongSize_pos hsized p⟩
      obtain ⟨hx, hy⟩ := point_inScreen ha hzero
      refine h _ _ hx hy ((triggers_opposite_iff hsized hnonneg).mpr ?_)
      rw [p.across_point]
      exact hbetween
    · obtain ⟨x, y, hx, hy, hboth⟩ := triggers_corner hsized hnonneg hcross
      exact absurd hboth (h x y hx hy)

/-- With a negative threshold, two edges meet everywhere or nowhere. -/
theorem not_overruns_iff_of_neg (hsized : config.Sized) (hneg : config.edgeThreshold.toInt < 0) :
    ¬ (Overruns config p ∧ Overruns config q) ↔
      ∀ x y, InScreen x config.screenWidth → InScreen y config.screenHeight →
        ¬ (triggers config x y p ∧ triggers config x y q) := by
  constructor
  · intro h x y hx hy hboth
    rw [triggers_of_neg hneg hx hy, triggers_of_neg hneg hx hy] at hboth
    exact h hboth
  · intro h
    have hx := half_inScreen hsized.1
    have hy := half_inScreen hsized.2
    have hcentre := h _ _ hx hy
    rw [triggers_of_neg hneg hx hy, triggers_of_neg hneg hx hy] at hcentre
    exact hcentre

/-- Two edges are apart if and only if no cursor in the screen is at both. -/
theorem apart_iff (hsized : config.Sized) :
    Apart config p q ↔ ∀ x y, InScreen x config.screenWidth → InScreen y config.screenHeight →
      ¬ (triggers config x y p ∧ triggers config x y q) := by
  unfold Apart
  rcases lt_or_ge config.edgeThreshold.toInt 0 with hneg | hnonneg
  · rw [← not_overruns_iff_of_neg hsized hneg]
    simp [hneg, Int.not_le.mpr hneg]
  · rw [← opposite_iff_of_nonneg hsized hnonneg]
    simp [hnonneg, Int.not_lt.mpr hnonneg]

/-! ## All registered clients -/

/-- The registered clients are apart, where they are configured. -/
def PairwiseApart (s : Server τ) : Prop :=
  ∀ n m p q, n ∈ s.clients → m ∈ s.clients → n ≠ m → s.config.clients.lookup n = some p →
    s.config.clients.lookup m = some q → Apart s.config p q

/-- A registered client is at its configured position. -/
theorem Configured.lookup_eq (h : s.Configured) {n : String} {p : ScreenPosition}
    (hmem : n ∈ s.clients) (hp : s.config.clients.lookup n = some p) :
    ∃ client, s.clients.lookup n = some client ∧ client.position = p := by
  obtain ⟨client, hclient⟩ := Option.isSome_iff_exists.mp (AList.lookup_isSome.mpr hmem)
  have hposition := (h n client hclient).symm.trans hp
  exact ⟨client, hclient, Option.some.inj hposition⟩

/-- No cursor in the screen is at the edges of two clients if and only if they are pairwise apart. -/
theorem pairwiseApart_iff (hsized : s.config.Sized) (hconfigured : s.Configured) :
    s.PairwiseApart ↔
      ∀ x y, InScreen x s.config.screenWidth → InScreen y s.config.screenHeight →
        ∀ n m, s.AtEdge x y n → s.AtEdge x y m → n = m := by
  constructor
  · rintro h x y hx hy n m ⟨c, hc, hn⟩ ⟨d, hd, hm⟩
    by_contra hne
    have hmem : n ∈ s.clients := AList.lookup_isSome.mp (Option.isSome_iff_exists.mpr ⟨c, hc⟩)
    have hmem' : m ∈ s.clients := AList.lookup_isSome.mp (Option.isSome_iff_exists.mpr ⟨d, hd⟩)
    have hapart := h n m _ _ hmem hmem' hne (hconfigured n c hc) (hconfigured m d hd)
    exact (apart_iff hsized).mp hapart x y hx hy ⟨hn, hm⟩
  · intro h n m p q hn hm hne hp hq
    refine (apart_iff hsized).mpr fun x y hx hy hboth => hne ?_
    obtain ⟨c, hc, rfl⟩ := hconfigured.lookup_eq hn hp
    obtain ⟨d, hd, rfl⟩ := hconfigured.lookup_eq hm hq
    exact h x y hx hy n m ⟨c, hc, hboth.1⟩ ⟨d, hd, hboth.2⟩

/-- At a cursor, every order of the map gives the same choice if and only if the cursor is at the edge
of one registered client at most; and that is so at every cursor in the screen if and only if the
registered clients are pairwise apart. -/
theorem one_choice_iff {env : LoadEnv} (hload : loadServerConfig env = .ok s.config)
    (hconfigured : s.Configured) :
    (∀ x y, InScreen x s.config.screenWidth → InScreen y s.config.screenHeight →
      (s.OneChoice x y ↔ ∀ n m, s.AtEdge x y n → s.AtEdge x y m → n = m)) ∧
    ((∀ x y, InScreen x s.config.screenWidth → InScreen y s.config.screenHeight →
      s.OneChoice x y) ↔ s.PairwiseApart) := by
  refine ⟨fun _ _ _ _ => oneChoice_iff, ?_⟩
  rw [pairwiseApart_iff (loadServerConfig_sized hload) hconfigured]
  exact forall₄_congr fun _ _ _ _ => oneChoice_iff

end Server

/-! ## All runs -/

namespace Listener

variable {serde : SerdeJson} {config : ServerConfig} {g : Listener}

/-- The clients registered in a run are configured ones. -/
theorem configured_of_reach (h : (lts serde config).Reach LTS.anyStep g) :
    g.system.server.config = config ∧ g.system.server.Configured := by
  obtain ⟨_, _, hinit, hrun⟩ := h
  obtain ⟨_, hkept⟩ := kept_of_steps hinit hrun
  refine ⟨hkept.config_eq, fun name client hclient => ?_⟩
  rw [hkept.config_eq]
  exact hkept.configured name client hclient

/-- In a run under a configuration whose clients are pairwise apart, the order of the map has no part
in how captured input is handled. -/
theorem handleInput_in_any_order {file : LoadEnv} (hload : loadServerConfig file = .ok config)
    (hapart : ∀ n m p q, n ≠ m → config.clients.lookup n = some p → config.clients.lookup m = some q →
      Server.Apart config p q)
    (h : (lts serde config).Reach LTS.anyStep g) {χ : Type} [Mailbox χ ConnId] (ch : χ)
    (ev : CaptureEvent) {env env' : Env ConnId} (hnow : env.now = env'.now) :
    g.system.server.handleInput env ch ev = g.system.server.handleInput env' ch ev := by
  obtain ⟨rfl, hconfigured⟩ := configured_of_reach h
  have hsized := loadServerConfig_sized hload
  refine Server.handleInput_of_oneChoice ch ev (fun dx dy _ => ?_) hnow
  have hpairwise : g.system.server.PairwiseApart := fun n m p q _ _ hne hp hq => hapart n m p q hne hp hq
  refine Server.oneChoice_iff.mpr ((Server.pairwiseApart_iff hsized hconfigured).mp hpairwise _ _ ?_ ?_)
  · exact clamp_inScreen _ hsized.1
  · exact clamp_inScreen _ hsized.2

end Listener

namespace Server

/-! ## A desk with two clients -/

/-- A file with a laptop on the left and a second client at some position. -/
def deskFile (position : ScreenPosition) : LoadEnv :=
  { houseFile none with
    file := some (.ok ⟨some {
      psk := some "0123456789abcdef"
      clients := some ((AList.singleton "laptop" "left").insert "desktop2" position.asStr) }, none⟩) }

/-- What that file configures. -/
def deskConfig (position : ScreenPosition) : ServerConfig :=
  { houseConfig 5 with clients := (AList.singleton "desktop2" position).insert "laptop" .left }

theorem load_deskFile (position : ScreenPosition) :
    loadServerConfig (deskFile position) = .ok (deskConfig position) := by
  have hpsk : trim "0123456789abcdef" = "0123456789abcdef" := by decide
  have hlong : MIN_PSK_LEN ≤ "0123456789abcdef".utf8ByteSize := by decide
  cases position <;>
    exact loadServerConfig_eq_ok.mpr ⟨_, rfl, rfl, rfl, rfl, rfl, rfl, hpsk.symm, hlong, rfl⟩

/-- Both of them are registered. -/
def deskServer (position : ScreenPosition) : Server Unit :=
  { (Server.new (deskConfig position) ClipboardManager.new 0 : Server Unit) with
    clients := (AList.singleton "desktop2" ⟨position, 1280, 1024, ()⟩).insert "laptop"
      ⟨.left, 800, 600, ()⟩ }

theorem lookup_desk {β : Type} {a b v : β} {name : String} :
    ((AList.singleton "desktop2" a : AList fun _ : String => β).insert "laptop" b).lookup name = some v ↔
      name = "laptop" ∧ v = b ∨ name = "desktop2" ∧ v = a := by
  by_cases hname : name = "laptop"
  · subst hname
    rw [AList.lookup_insert]
    simp [eq_comm]
  · rw [AList.lookup_insert_ne hname, lookup_singleton_eq_some]
    simp [hname]

theorem deskServer_configured (position : ScreenPosition) : (deskServer position).Configured := by
  intro name client h
  rcases lookup_desk.mp h with ⟨hname, rfl⟩ | ⟨hname, rfl⟩
  · exact lookup_desk.mpr (.inl ⟨hname, rfl⟩)
  · exact lookup_desk.mpr (.inr ⟨hname, rfl⟩)

/-- With the second client on the right, the choice is settled at every cursor. -/
theorem one_choice_iff_opposite :
    loadServerConfig (deskFile .right) = .ok (deskConfig .right) ∧
      ∀ x y, InScreen x (deskConfig .right).screenWidth → InScreen y (deskConfig .right).screenHeight →
        (deskServer .right).OneChoice x y := by
  have hload := load_deskFile .right
  refine ⟨hload, (one_choice_iff hload (deskServer_configured .right)).2.mpr ?_⟩
  intro n m p q _ _ hne hp hq
  rcases lookup_desk.mp hp with ⟨rfl, rfl⟩ | ⟨rfl, rfl⟩
  · rcases lookup_desk.mp hq with ⟨rfl, rfl⟩ | ⟨rfl, rfl⟩
    · exact absurd rfl hne
    · decide
  · rcases lookup_desk.mp hq with ⟨rfl, rfl⟩ | ⟨rfl, rfl⟩
    · decide
    · exact absurd rfl hne

/-- The opposite of the order in which the entries are kept. -/
def reversed : HashOrder Unit :=
  ⟨fun c => ((HashOrder.entries Unit).1 c).reverse, fun _ => List.reverse_perm _⟩

/-- With the second client on top, the order of the map decides who gets control in the corner. -/
theorem corner_chosen_by_order :
    loadServerConfig (deskFile .top) = .ok (deskServer .top).config ∧ (deskServer .top).Configured ∧
      InScreen 0 (deskServer .top).config.screenWidth ∧
      InScreen 0 (deskServer .top).config.screenHeight ∧
      (deskServer .top).checkEdge ⟨0, .entries Unit⟩ 0 0 = some ("laptop", 700, 0) ∧
      (deskServer .top).checkEdge ⟨0, reversed⟩ 0 0 = some ("desktop2", 0, 924) := by
  have hscreen : InScreen 0 (deskServer .top).config.screenWidth ∧
      InScreen 0 (deskServer .top).config.screenHeight :=
    ⟨⟨by decide, by decide⟩, by decide, by decide⟩
  exact ⟨load_deskFile .top, deskServer_configured .top, hscreen.1, hscreen.2, rfl, rfl⟩

end Server

end Bluecross
