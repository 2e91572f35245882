/-
# Bluecross.HandshakeSizes — what an accepted handshake can do to the edge arithmetic.

The handshake of a client announces the size of its screen. `handle_new_connection` narrows what it
finds to `i32` and checks nothing, and `check_edge` computes with it later, for every client until one
is at its edge. A server whose clients have all been accepted is one with a `Greeting` behind every
name; it is harmless, whatever the order of its map, if and only if every greeting is (`Harmless`): what
it announces is a positive `i32`, the threshold at its edge does not overflow, and if the edge can be
reached at all, the farthest coordinate along it can be multiplied by its size.
-/
import Bluecross.Admission
import Bluecross.EdgeArithmetic

namespace Bluecross

open Lib

/-! ## What is announced and what is registered -/

/-- The integer that a number is. -/
def Number.integer : Number → Option Int
  | .posInt n => some n.toNat
  | .negInt n => some n.toInt
  | .float _ => none

/-- The integer a number of `serde_json` stands for; a float stands for none. -/
def Value.integer : Value → Option Int
  | .number n => n.integer
  | _ => none

/-- The integer that a payload announces under a key, if it announces one. -/
def announced (payload : Value) (key : String) : Option Int := (payload.get key).bind Value.integer

/-- What is announced can be registered as it is, and is a size. -/
def SoundSize (payload : Value) (key : String) : Prop :=
  ∀ n, announced payload key = some n → 1 ≤ n ∧ n < 2 ^ 31

/-- The size that is meant: the announced one, or the default of the handler. -/
def meantSize (payload : Value) (key : String) (default : Int) : Int :=
  (announced payload key).getD default

/-- `as_i64` reads every integer up to `i64::MAX`. -/
theorem toInt_asI64 {n : Number} {i : Int} (h : n.integer = some i) (hfits : i < 2 ^ 63) :
    ∃ m, n.asI64 = some m ∧ m.toInt = i := by
  cases n with
  | posInt n =>
      cases h
      have hlt : n.toNat < 2 ^ 63 := by omega
      refine ⟨n.toInt64, if_pos hlt, ?_⟩
      have hofNat : n.toInt64 = Int64.ofNat n.toNat := by
        rw [← UInt64.toInt64_ofNat', UInt64.ofNat_toNat]
      rw [hofNat, Int64.toInt_ofNat_of_lt hlt]
  | negInt n =>
      cases h
      exact ⟨n, rfl, rfl⟩
  | float bits => cases h

/-- An announced integer that fits is registered as it is. -/
theorem toInt_registered {payload : Value} {key : String} {n : Int}
    (h : announced payload key = some n) (hfits : FitsI32 n) (default : Int64) :
    (payload.i64Or key default).toInt32.toInt = n := by
  obtain ⟨v, hget, hinteger⟩ := Option.bind_eq_some_iff.mp h
  obtain ⟨hlow, hhigh⟩ := hfits
  cases v with
  | number num =>
      obtain ⟨m, hread, rfl⟩ := toInt_asI64 hinteger (by omega)
      have hor : payload.i64Or key default = m := by
        simp [Value.i64Or, hget, Value.asI64, hread]
      rw [hor, Int64.toInt_toInt32, Int.bmod_eq_of_le (by omega) (by omega)]
  | _ => cases hinteger

/-- Where no integer is announced, the default is registered. -/
theorem i64Or_of_silent {payload : Value} {key : String} (h : announced payload key = none)
    (default : Int64) : payload.i64Or key default = default := by
  rw [announced] at h
  rw [Value.i64Or]
  cases hget : payload.get key with
  | none => rfl
  | some v =>
      rw [hget, Option.bind_some] at h
      cases v with
      | number num =>
          cases num with
          | posInt n => cases h
          | negInt n => cases h
          | float bits => rfl
      | _ => rfl

/-- What is registered is a size and is what is announced, if and only if that is sound. -/
theorem soundSize_iff {payload : Value} {key : String} {default : Int32} (hpos : 0 < default) :
    SoundSize payload key ↔
      (∀ n, announced payload key = some n →
        (payload.i64Or key default.toInt64).toInt32.toInt = n) ∧
      0 < (payload.i64Or key default.toInt64).toInt32 := by
  rw [toInt_pos_iff]
  cases h : announced payload key with
  | none =>
      rw [i64Or_of_silent h, Int32.toInt32_toInt64, ← toInt_pos_iff]
      simp [SoundSize, h, hpos]
  | some n =>
      have hlt := Int32.toInt_lt (payload.i64Or key default.toInt64).toInt32
      constructor
      · intro hsound
        obtain ⟨hlow, hhigh⟩ := hsound n h
        have hregistered := toInt_registered h ⟨by omega, hhigh⟩ default.toInt64
        refine ⟨?_, by omega⟩
        intro m hm
        cases hm
        exact hregistered
      · rintro ⟨hsame, hsize⟩ m hm
        rw [h] at hm
        cases hm
        have := hsame n rfl
        omega

/-- A sound size is registered as it is meant. -/
theorem toInt_meant {payload : Value} {key : String} (default : Int32)
    (h : SoundSize payload key) :
    (payload.i64Or key default.toInt64).toInt32.toInt = meantSize payload key default.toInt := by
  cases hannounced : announced payload key with
  | none =>
      rw [i64Or_of_silent hannounced, Int32.toInt32_toInt64, meantSize, hannounced, Option.getD_none]
  | some n =>
      obtain ⟨hlow, hhigh⟩ := h n hannounced
      rw [toInt_registered hannounced ⟨by omega, hhigh⟩, meantSize, hannounced, Option.getD_some]

/-! ## One client, at every cursor -/

/-- The order of the entries, but that one name comes first. -/
def HashOrder.first (τ : Type) (name : String) : HashOrder τ :=
  ⟨fun c => (c.entries.map fun e => (e.1, e.2)).filter (fun e => e.1 = name) ++
      (c.entries.map fun e => (e.1, e.2)).filter (fun e => ¬ e.1 = name), fun c => by
    simpa using List.filter_append_perm (fun e : String × ClientInfo τ => decide (e.1 = name))
      (c.entries.map fun e => (e.1, e.2))⟩

theorem HashOrder.first_eq_cons {τ : Type} {clients : Clients τ} {name : String}
    {client : ClientInfo τ} (h : clients.lookup name = some client) :
    ∃ rest, (HashOrder.first τ name).1 clients = (name, client) :: rest := by
  have hmem : (name, client) ∈ (clients.entries.map fun e => (e.1, e.2)).filter
      (fun e => e.1 = name) := by
    refine List.mem_filter.mpr ⟨?_, by simp⟩
    exact (HashOrder.entries τ).mem_iff.mpr h
  cases hfront : (clients.entries.map fun e => (e.1, e.2)).filter (fun e => e.1 = name) with
  | nil =>
      rw [hfront] at hmem
      cases hmem
  | cons e rest =>
      have he : e ∈ (clients.entries.map fun e => (e.1, e.2)).filter (fun e => e.1 = name) := by
        rw [hfront]
        exact List.mem_cons_self ..
      obtain ⟨n, c⟩ := e
      obtain ⟨hentry, hn⟩ := List.mem_filter.mp he
      obtain rfl : n = name := by simpa using hn
      have hc := (HashOrder.entries τ).mem_iff.mp hentry
      rw [h] at hc
      cases hc
      refine ⟨rest ++ (clients.entries.map fun e => (e.1, e.2)).filter (fun e => ¬ e.1 = n), ?_⟩
      rw [HashOrder.first]
      simp only [hfront, List.cons_append]

namespace Server

variable {τ : Type} {config : ServerConfig}

/-- The arithmetic for a client is exact wherever the cursor is, if and only if the threshold is in
range and the farthest coordinate along an edge that can be reached can be multiplied. -/
theorem edgeFits_everywhere_iff (client : ClientInfo τ) (hsized : config.Sized)
    (hwidth : 0 < client.screenWidth) (hheight : 0 < client.screenHeight) :
    (∀ x y, InScreen x config.screenWidth → InScreen y config.screenHeight →
      EdgeFits config x y client) ↔
    (client.position.far →
      (acrossSize config client.position).toInt - config.edgeThreshold.toInt < 2 ^ 31) ∧
    (0 ≤ config.edgeThreshold.toInt →
      ((alongSize config client.position).toInt - 1) *
        (client.position.along client.screenWidth client.screenHeight).toInt < 2 ^ 31) := by
  have halong := alongSize_pos hsized client.position
  have hlast := toInt_last halong
  have hpos : 0 < (client.position.along client.screenWidth client.screenHeight).toInt := by
    cases client.position <;> simp only [ScreenPosition.along] <;> rw [← toInt_pos_iff] <;> assumption
  have hacross : 0 < (client.position.across client.screenWidth client.screenHeight).toInt := by
    cases client.position <;> simp only [ScreenPosition.across] <;> rw [← toInt_pos_iff] <;> assumption
  constructor
  · intro h
    obtain ⟨hx, hy⟩ := point_inScreen (outermost_inScreen hsized client.position) (last_inScreen halong)
    have hcorner := h _ _ hx hy
    refine ⟨(thresholdFits_iff_lt hsized).mp hcorner.threshold, fun hnonneg => ?_⟩
    have htriggers := triggers_outermost hsized hnonneg
      (client.position.across_point (outermost config client.position)
        (alongSize config client.position - 1))
    have hproduct := (hcorner.product htriggers).2
    rw [client.position.along_point, hlast] at hproduct
    exact hproduct
  · rintro ⟨hthreshold, hproduct⟩ x y hx hy
    have hfits := (thresholdFits_iff_lt hsized).mpr hthreshold
    refine ⟨hfits, fun _ _ => ?_, fun htriggers => ?_⟩
    · have hlt := Int32.toInt_lt (client.position.across client.screenWidth client.screenHeight)
      exact ⟨by omega, by omega⟩
    · obtain ⟨hlow, hhigh⟩ := inScreen_iff.mp (along_inScreen hx hy client.position)
      have hfar := hproduct (nonneg_of_triggers hfits hx hy htriggers)
      have hle := Int.mul_le_mul_of_nonneg_right
        (by omega : (client.position.along x y).toInt ≤ (alongSize config client.position).toInt - 1)
        hpos.le
      have hnonneg := Int.mul_nonneg hlow hpos.le
      exact ⟨by omega, by omega⟩

/-! ## All clients, in every order -/

variable {s : Server τ}

/-- No evaluation overflows, in whatever order the map is iterated, if and only if the arithmetic is
exact for every client. -/
theorem checkedCheckEdge_fine_iff (hsized : s.config.Sized) {x y : Int32} :
    (∀ env, s.checkedCheckEdge env x y ≠ none) ↔
      ∀ n c, s.clients.lookup n = some c → EdgeFits s.config x y c := by
  constructor
  · intro h n c hc
    have hfine := h ⟨0, HashOrder.first τ n⟩
    obtain ⟨rest, hfirst⟩ := HashOrder.first_eq_cons hc
    rw [checkedCheckEdge, hfirst, List.findSomeM?_cons] at hfine
    cases hedge : checkedEdgeOf s.config x y n c with
    | none =>
        rw [hedge] at hfine
        exact absurd rfl hfine
    | some r => exact ((checkedEdgeOf_eq_some hsized).mp hedge).1
  · intro h env
    refine findSomeM?_ne_none ?_
    rintro ⟨n, c⟩ hmem
    have hfits := h n c (env.order.mem_iff.mp hmem)
    rw [(checkedEdgeOf_eq_some hsized).mpr ⟨hfits, rfl⟩]
    exact Option.some_ne_none _

end Server

/-! ## Accepted handshakes -/

/-- The payload of the first message, if the channel and the message come about. -/
def Arrival.firstPayload (serde : SerdeJson) (a : Arrival) : Option Value :=
  match a.secureChannel with
  | .error _ => none
  | .ok (reader, _) =>
      match a.firstMessage serde (ProtocolReader.new reader) with
      | .error _ => none
      | .ok (msg, _) => some msg.payload

/-- A handshake that was accepted. -/
structure Greeting (serde : SerdeJson) (config : ServerConfig) where
  arrival : Arrival
  admitted : Admitted
  accepted : arrival.handleNewConnection serde config = .ok admitted

/-- The position that is configured for the name in a payload. -/
def configuredPosition (config : ServerConfig) (payload : Value) : Option ScreenPosition :=
  ((payload.get "name").bind Value.asStr).bind fun name => config.clients.lookup name

namespace Greeting

variable {serde : SerdeJson} {config : ServerConfig} {τ : Type}

/-- What the first message of a greeting carries. -/
def payload (g : Greeting serde config) : Value := (g.arrival.firstPayload serde).getD .null

/-- The entry that `NewClient` makes. -/
def registers (g : Greeting serde config) (tx : τ) : ClientInfo τ :=
  ⟨g.admitted.position, g.admitted.screenWidth, g.admitted.screenHeight, tx⟩

/-- The registered size is the announced one, where one is announced, and is positive. -/
structure Faithful (g : Greeting serde config) : Prop where
  width : ∀ n, announced g.payload "screen_width" = some n → g.admitted.screenWidth.toInt = n
  height : ∀ n, announced g.payload "screen_height" = some n → g.admitted.screenHeight.toInt = n
  width_pos : 0 < g.admitted.screenWidth
  height_pos : 0 < g.admitted.screenHeight

/-- What the handler makes of a payload. -/
structure Reads (payload : Value) (config : ServerConfig) (adm : Admitted) : Prop where
  position : configuredPosition config payload = some adm.position
  width : adm.screenWidth = (payload.i64Or "screen_width" (1920 : Int32).toInt64).toInt32
  height : adm.screenHeight = (payload.i64Or "screen_height" (1080 : Int32).toInt64).toInt32

theorem reads (g : Greeting serde config) : Reads g.payload config g.admitted := by
  obtain ⟨⟨reader, writer, msg, hsecure, htimely, hreceive, _, hname, hwidth, hheight, _⟩,
    hposition, _, _⟩ := Arrival.handleNewConnection_eq_ok.mp g.accepted
  have hchannel := Arrival.secureChannel_eq_ok.mpr hsecure
  have hfirst := Arrival.firstMessage_eq_ok.mpr ⟨htimely, hreceive⟩
  have hpayload : g.payload = msg.payload := by
    simp only [payload, Arrival.firstPayload, hchannel, hfirst, Option.getD_some]
  rw [hpayload]
  refine ⟨?_, hwidth, hheight⟩
  rw [configuredPosition, hname]
  exact hposition

theorem faithful_iff (g : Greeting serde config) :
    g.Faithful ↔ SoundSize g.payload "screen_width" ∧ SoundSize g.payload "screen_height" := by
  obtain ⟨_, hwidth, hheight⟩ := g.reads
  have hdefault : (0 : Int32) < 1920 ∧ (0 : Int32) < 1080 := by decide
  rw [soundSize_iff hdefault.1, soundSize_iff hdefault.2, ← hwidth, ← hheight]
  constructor
  · rintro ⟨hw, hh, hwpos, hhpos⟩
    exact ⟨⟨hw, hwpos⟩, hh, hhpos⟩
  · rintro ⟨⟨hw, hwpos⟩, hh, hhpos⟩
    exact ⟨hw, hh, hwpos, hhpos⟩

end Greeting

/-- A payload that can neither be misread nor make the arithmetic overflow. -/
structure Harmless (config : ServerConfig) (payload : Value) : Prop where
  width : SoundSize payload "screen_width"
  height : SoundSize payload "screen_height"
  threshold : ∀ p, configuredPosition config payload = some p → p.far →
    (Server.acrossSize config p).toInt - config.edgeThreshold.toInt < 2 ^ 31
  product : ∀ p, configuredPosition config payload = some p → 0 ≤ config.edgeThreshold.toInt →
    ((Server.alongSize config p).toInt - 1) *
      p.along (meantSize payload "screen_width" 1920) (meantSize payload "screen_height" 1080) < 2 ^ 31

/-! ## A server whose clients were all accepted -/

/-- Every registered client is there by a handshake that was accepted. -/
structure GreetedBy {τ : Type} {serde : SerdeJson} {config : ServerConfig} (s : Server τ)
    (gs : String → Option (Greeting serde config)) : Prop where
  config_eq : s.config = config
  registered : ∀ n g, gs n = some g → ∃ tx, s.clients.lookup n = some (g.registers tx)
  greeted : ∀ n c, s.clients.lookup n = some c → ∃ g tx, gs n = some g ∧ c = g.registers tx

section

variable {τ : Type} {serde : SerdeJson} {config : ServerConfig} {s : Server τ}
  {gs : String → Option (Greeting serde config)}

/-- At first nobody is registered. -/
theorem greetedBy_new (serde : SerdeJson) (clipboard : ClipboardManager) (now : Instant) :
    GreetedBy (Server.new config clipboard now : Server τ)
      (fun _ => none : String → Option (Greeting serde config)) := by
  have hnone : ∀ n, (Server.new config clipboard now : Server τ).clients.lookup n = none :=
    fun n => AList.lookup_empty n
  refine ⟨rfl, fun n g hg => ?_, fun n c hc => ?_⟩
  · exact absurd hg (Option.some_ne_none g).symm
  · exact absurd (hnone n) (Option.ne_none_iff_exists'.mpr ⟨c, hc⟩)

/-- A handshake that is accepted registers its client. -/
theorem greetedBy_newClient (h : GreetedBy s gs) (g : Greeting serde config) (tx : τ)
    {χ : Type} [Mailbox χ τ] (env : Env τ) (ch : χ) :
    GreetedBy (s.handle env ch (.newClient g.admitted.name g.admitted.position
      g.admitted.screenWidth g.admitted.screenHeight tx)).1
      (Function.update gs g.admitted.name (some g)) := by
  refine ⟨h.config_eq, ?_, ?_⟩
  · intro n g' hg'
    by_cases hn : n = g.admitted.name
    · subst hn
      rw [Function.update_self] at hg'
      cases hg'
      exact ⟨tx, AList.lookup_insert _⟩
    · rw [Function.update_of_ne hn] at hg'
      obtain ⟨tx', hlookup⟩ := h.registered n g' hg'
      exact ⟨tx', (AList.lookup_insert_ne hn).trans hlookup⟩
  · intro n c hc
    by_cases hn : n = g.admitted.name
    · subst hn
      have hc' := (AList.lookup_insert s.clients).symm.trans hc
      refine ⟨g, tx, Function.update_self .., ?_⟩
      exact (Option.some.inj hc').symm
    · have hc' := (AList.lookup_insert_ne hn).symm.trans hc
      obtain ⟨g', tx', hg', hregisters⟩ := h.greeted n c hc'
      exact ⟨g', tx', (Function.update_of_ne hn ..).trans hg', hregisters⟩

/-- A greeting is harmless if and only if it is faithful and the arithmetic for the client it registers
is exact at every cursor. -/
theorem harmless_iff (hsized : config.Sized) (g : Greeting serde config) (tx : τ) :
    Harmless config g.payload ↔
      g.Faithful ∧ ∀ x y, InScreen x config.screenWidth → InScreen y config.screenHeight →
        Server.EdgeFits config x y (g.registers tx) := by
  obtain ⟨hposition, hwidth, hheight⟩ := g.reads
  -- along the edge, the registered size is the one that is meant
  have hmeant : SoundSize g.payload "screen_width" → SoundSize g.payload "screen_height" →
      (g.admitted.position.along g.admitted.screenWidth g.admitted.screenHeight).toInt =
        g.admitted.position.along (meantSize g.payload "screen_width" 1920)
          (meantSize g.payload "screen_height" 1080) := by
    intro hw hh
    have hw' := toInt_meant 1920 hw
    have hh' := toInt_meant 1080 hh
    rw [← hwidth] at hw'
    rw [← hheight] at hh'
    cases g.admitted.position
    · exact hh'
    · exact hh'
    · exact hw'
    · exact hw'
  constructor
  · rintro ⟨hw, hh, hthreshold, hproduct⟩
    have hfaithful := g.faithful_iff.mpr ⟨hw, hh⟩
    refine ⟨hfaithful, ?_⟩
    refine (Server.edgeFits_everywhere_iff (g.registers tx) hsized hfaithful.width_pos
      hfaithful.height_pos).mpr ⟨hthreshold _ hposition, fun hnonneg => ?_⟩
    have hfits := hproduct _ hposition hnonneg
    rw [← hmeant hw hh] at hfits
    exact hfits
  · rintro ⟨hfaithful, hfits⟩
    obtain ⟨hw, hh⟩ := g.faithful_iff.mp hfaithful
    obtain ⟨hthreshold, hproduct⟩ := (Server.edgeFits_everywhere_iff (g.registers tx) hsized
      hfaithful.width_pos hfaithful.height_pos).mp hfits
    refine ⟨hw, hh, ?_, ?_⟩
    · intro p hp
      rw [hposition] at hp
      cases hp
      exact hthreshold
    · intro p hp hnonneg
      rw [hposition] at hp
      cases hp
      rw [← hmeant hw hh]
      exact hproduct hnonneg

/-- Accepted handshakes are registered as they were announced and keep the edge arithmetic in range, at
every cursor and in every order of the map, if and only if each of them is harmless. -/
theorem handshakes_harmless_iff {env : LoadEnv} (hload : loadServerConfig env = .ok config)
    (hgreeted : GreetedBy s gs) :
    ((∀ n g, gs n = some g → g.Faithful) ∧
      ∀ env x y, InScreen x config.screenWidth → InScreen y config.screenHeight →
        s.checkedCheckEdge env x y ≠ none) ↔
    ∀ n g, gs n = some g → Harmless config g.payload := by
  have hsized := loadServerConfig_sized hload
  obtain ⟨rfl, hregistered, hgreeted⟩ := hgreeted
  constructor
  · rintro ⟨hfaithful, hfine⟩ n g hg
    obtain ⟨tx, hlookup⟩ := hregistered n g hg
    refine (harmless_iff hsized g tx).mpr ⟨hfaithful n g hg, fun x y hx hy => ?_⟩
    have hall := (Server.checkedCheckEdge_fine_iff hsized).mp fun env => hfine env x y hx hy
    exact hall n _ hlookup
  · intro h
    refine ⟨fun n g hg => ?_, fun env x y hx hy => ?_⟩
    · obtain ⟨tx, _⟩ := hregistered n g hg
      exact ((harmless_iff hsized g tx).mp (h n g hg)).1
    · refine (Server.checkedCheckEdge_fine_iff hsized).mpr (fun n c hc => ?_) env
      obtain ⟨g, tx, hg, rfl⟩ := hgreeted n c hc
      exact ((harmless_iff hsized g tx).mp (h n g hg)).2 x y hx hy

end

/-! ## A laptop with a screen that is too large -/

/-- `serde_json` on what the two sides write: the hello is read and the ack is written. -/
def greetingSerde (hello ack : List UInt8) (payload : Value) : SerdeJson where
  toVec v := if (v.get "name").isSome then hello else ack
  fromSlice bytes := if bytes = hello then .ok payload else .error "expected value"

/-- A handshake on the wire: one frame, under a tagged session. -/
def greetingReader (serde : SerdeJson) (payload : Value) : SecureReader :=
  ⟨⟨frame ((Message.mk .handshake payload).encode serde ++ List.replicate TAG_LEN 0), none⟩,
    taggedSession, 0⟩

/-- A connection that greets in this way, when nothing goes wrong. -/
def greetingArrival (serde : SerdeJson) (payload : Value) : Arrival where
  addr := "10.0.0.2:40000"
  secure := some (.ok (greetingReader serde payload, ⟨[], taggedSession, 0⟩))
  timedOut := false
  written := .ok ()
  flushed := .ok ()

theorem receive_greeting {serde : SerdeJson} {payload : Value} (hround : serde.RoundTrips payload)
    (hlen : (serde.toVec payload).length ≤ 60000) :
    ∃ reader, (ProtocolReader.new (greetingReader serde payload)).receive serde
      = (.ok (some ⟨.handshake, payload⟩), reader) := by
  have hsmall : (serde.toVec payload).length ≤ MAX_PAYLOAD := hlen.trans (by decide)
  have hdecode := @Message.decode_encode serde ⟨.handshake, payload⟩ hround hsmall
  have hsize := @Message.length_encode serde ⟨.handshake, payload⟩
  have hread : ChunkReader.readChunk (greetingReader serde payload) =
      (.ok (some ((Message.mk .handshake payload).encode serde)), ⟨⟨[], none⟩, taggedSession, 1⟩) := by
    have hplain : taggedSession.readMessage 0
        ((Message.mk .handshake payload).encode serde ++ List.replicate TAG_LEN 0)
          = .ok ((Message.mk .handshake payload).encode serde) := by
      simp [taggedSession]
    have hexact : FrameExact
        ((Message.mk .handshake payload).encode serde ++ List.replicate TAG_LEN 0) := by
      refine ⟨List.append_ne_nil_of_right_ne_nil _ (by decide), ?_⟩
      rw [List.length_append, hsize, List.length_replicate, UInt16.toNat_ofNat']
      exact Nat.mod_eq_of_lt (by simp only [HEADER_LEN, TAG_LEN]; omega)
    have hframe := @readChunk_frame taggedSession 0 _ _ [] none hexact hplain
    rw [List.append_nil] at hframe
    exact hframe
  have hempty : Message.decode serde (ProtocolReader.new (greetingReader serde payload)).buffer
    = .ok none := rfl
  have hchunk := ProtocolReader.receive_of_chunk hempty hread
  exact ⟨_, hchunk.trans (ProtocolReader.receive_of_item hdecode)⟩

/-- A greeting under a configured name is accepted. -/
theorem greeting_accepted {serde : SerdeJson} {config : ServerConfig} {payload : Value}
    {name : String} {position : ScreenPosition} (hround : serde.RoundTrips payload)
    (hlen : (serde.toVec payload).length ≤ 60000)
    (hname : (payload.get "name").bind Value.asStr = some name)
    (hposition : config.clients.lookup name = some position) :
    ∃ g : Greeting serde config, g.payload = payload ∧ g.admitted.name = name := by
  obtain ⟨reader, hreceive⟩ := receive_greeting hround hlen
  obtain ⟨_, _, hsend, _⟩ := sendAll_pending serde 0 [Message.handshakeAck position.asStr
    config.screenWidth config.screenHeight] inOrder_taggedSession
  obtain ⟨writer, hack, _⟩ := bind_eq_ok.mp hsend
  let adm : Admitted :=
    { name := name
      position := position
      screenWidth := (payload.i64Or "screen_width" 1920).toInt32
      screenHeight := (payload.i64Or "screen_height" 1080).toInt32
      reader := reader
      writer := writer }
  have haccepted : (greetingArrival serde payload).handleNewConnection serde config = .ok adm :=
    Arrival.handleNewConnection_eq_ok.mpr
      ⟨⟨greetingReader serde payload, ⟨[], taggedSession, 0⟩, ⟨.handshake, payload⟩, rfl, rfl, hreceive,
        rfl, hname, rfl, rfl, hack⟩, hposition, rfl, rfl⟩
  refine ⟨⟨greetingArrival serde payload, adm, haccepted⟩, ?_, rfl⟩
  have hfirst : (greetingArrival serde payload).firstMessage serde
      (ProtocolReader.new (greetingReader serde payload)) = .ok (⟨.handshake, payload⟩, reader) :=
    Arrival.firstMessage_eq_ok.mpr ⟨rfl, hreceive⟩
  have hchannel : (greetingArrival serde payload).secureChannel
    = .ok (greetingReader serde payload, ⟨[], taggedSession, 0⟩) := rfl
  simp only [Greeting.payload, Arrival.firstPayload, hchannel, hfirst, Option.getD_some]

/-- The hello of a laptop whose screen is announced as 4294968096 by 2000000000. -/
def wideHello : List UInt8 :=
  [123, 34, 110, 97, 109, 101, 34, 58, 34, 108, 97, 112, 116, 111, 112, 34, 44, 34, 115, 99, 114,
    101, 101, 110, 95, 104, 101, 105, 103, 104, 116, 34, 58, 50, 48, 48, 48, 48, 48, 48, 48, 48,
    48, 44, 34, 115, 99, 114, 101, 101, 110, 95, 119, 105, 100, 116, 104, 34, 58, 52, 50, 57, 52,
    57, 54, 56, 48, 57, 54, 125]

/-- The hello of a laptop whose screen is 800 by 600. -/
def plainHello : List UInt8 :=
  [123, 34, 110, 97, 109, 101, 34, 58, 34, 108, 97, 112, 116, 111, 112, 34, 44, 34, 115, 99, 114,
    101, 101, 110, 95, 104, 101, 105, 103, 104, 116, 34, 58, 54, 48, 48, 44, 34, 115, 99, 114, 101,
    101, 110, 95, 119, 105, 100, 116, 104, 34, 58, 56, 48, 48, 125]

/-- The ack of the house. -/
def houseAck : List UInt8 :=
  [123, 34, 112, 111, 115, 105, 116, 105, 111, 110, 34, 58, 34, 114, 105, 103, 104, 116, 34, 44,
    34, 115, 101, 114, 118, 101, 114, 95, 104, 101, 105, 103, 104, 116, 34, 58, 49, 48, 56, 48, 44,
    34, 115, 101, 114, 118, 101, 114, 95, 119, 105, 100, 116, 104, 34, 58, 49, 57, 50, 48, 125]

/-- The payload of a laptop that announces a screen of this size. -/
def laptopPayload (width height : UInt64) : Value :=
  .object [("name", .string "laptop"), ("screen_height", .number (.posInt height)),
    ("screen_width", .number (.posInt width))]

theorem laptopPayload_announced (width height : UInt64) :
    announced (laptopPayload width height) "screen_width" = some (width.toNat : Int) ∧
      announced (laptopPayload width height) "screen_height" = some (height.toNat : Int) :=
  ⟨rfl, rfl⟩

theorem laptopPayload_position (width height : UInt64) (threshold : Int32) :
    configuredPosition (houseConfig threshold) (laptopPayload width height) = some .right := rfl

/-- The server after the laptop's handshake. -/
def greetedServer {serde : SerdeJson} (g : Greeting serde (houseConfig 5)) : Server Unit :=
  ((Server.new (houseConfig 5) ClipboardManager.new 0 : Server Unit).handle ⟨0, .entries Unit⟩
    (⟨fun _ => .ok, []⟩ : Recorder Unit) (.newClient g.admitted.name g.admitted.position
      g.admitted.screenWidth g.admitted.screenHeight ())).1

theorem greetedBy_greetedServer {serde : SerdeJson} (g : Greeting serde (houseConfig 5)) :
    GreetedBy (greetedServer g)
      (Function.update (fun _ => none) g.admitted.name (some g)) :=
  greetedBy_newClient (greetedBy_new serde ClipboardManager.new 0) g () _ _

theorem laptopPayload_harmless : Harmless (houseConfig 5) (laptopPayload 800 600) := by
  obtain ⟨hwidth, hheight⟩ := laptopPayload_announced 800 600
  refine ⟨?_, ?_, ?_, ?_⟩
  · intro n hn
    cases hwidth.symm.trans hn
    decide
  · intro n hn
    cases hheight.symm.trans hn
    decide
  · intro p hp _
    cases (laptopPayload_position 800 600 5).symm.trans hp
    decide
  · intro p hp _
    cases (laptopPayload_position 800 600 5).symm.trans hp
    rw [meantSize, meantSize, hwidth, hheight]
    decide

theorem handshakes_harmless_iff_plain :
    ∃ g : Greeting (greetingSerde plainHello houseAck (laptopPayload 800 600)) (houseConfig 5),
      g.Faithful ∧ ∀ env x y, InScreen x (houseConfig 5).screenWidth →
        InScreen y (houseConfig 5).screenHeight →
          (greetedServer g).checkedCheckEdge env x y ≠ none := by
  have hround : (greetingSerde plainHello houseAck (laptopPayload 800 600)).RoundTrips
      (laptopPayload 800 600) := rfl
  have hlookup : (houseConfig 5).clients.lookup "laptop" = some .right := rfl
  obtain ⟨g, hpayload, _⟩ := greeting_accepted hround (by decide) rfl hlookup
  have hgs : Function.update (fun _ => none) g.admitted.name (some g) g.admitted.name = some g :=
    Function.update_self ..
  have hload : loadServerConfig (houseFile none) = .ok (houseConfig 5) := load_houseFile none
  have hharmless : ∀ n g', Function.update (fun _ => none) g.admitted.name (some g) n = some g' →
      Harmless (houseConfig 5) g'.payload := by
    intro n g' hg'
    by_cases hn : n = g.admitted.name
    · subst hn
      cases hgs.symm.trans hg'
      rw [hpayload]
      exact laptopPayload_harmless
    · rw [Function.update_of_ne hn] at hg'
      cases hg'
  obtain ⟨hfaithful, hfine⟩ :=
    (handshakes_harmless_iff hload (greetedBy_greetedServer g)).mpr hharmless
  exact ⟨g, hfaithful _ g hgs, hfine⟩

/-- A handshake that is accepted although its width does not fit, and its height makes the product
overflow when the pointer leaves through the corner. -/
theorem wide_screen_overflows :
    loadServerConfig (houseFile none) = .ok (houseConfig 5) ∧
    ∃ g : Greeting (greetingSerde wideHello houseAck (laptopPayload 4294968096 2000000000))
        (houseConfig 5),
      announced g.payload "screen_width" = some 4294968096 ∧ g.admitted.screenWidth = 800 ∧
      InScreen 1919 (houseConfig 5).screenWidth ∧ InScreen 1079 (houseConfig 5).screenHeight ∧
      ∃ env, (greetedServer g).checkedCheckEdge env 1919 1079 = none := by
  have hround : (greetingSerde wideHello houseAck
      (laptopPayload 4294968096 2000000000)).RoundTrips (laptopPayload 4294968096 2000000000) := rfl
  have hlookup : (houseConfig 5).clients.lookup "laptop" = some .right := rfl
  obtain ⟨g, hpayload, _⟩ := greeting_accepted hround (by decide) rfl hlookup
  obtain ⟨hposition, hwidth, hheight⟩ := g.reads
  rw [hpayload] at hposition hwidth hheight
  have hright := Option.some.inj (hposition.symm.trans (laptopPayload_position _ _ 5))
  have hload : loadServerConfig (houseFile none) = .ok (houseConfig 5) := load_houseFile none
  refine ⟨hload, g, ?_, hwidth, ⟨by decide, by decide⟩, ⟨by decide, by decide⟩, ?_⟩
  · rw [hpayload]
    exact (laptopPayload_announced 4294968096 2000000000).1
  · by_contra hfine
    rw [not_exists] at hfine
    obtain ⟨hconfig, hregistered, _⟩ := greetedBy_greetedServer g
    obtain ⟨⟨⟩, hclient⟩ := hregistered g.admitted.name g (Function.update_self ..)
    have hsized : (greetedServer g).config.Sized := hconfig ▸ loadServerConfig_sized hload
    obtain ⟨_, _, hproduct⟩ := (Server.checkedCheckEdge_fine_iff hsized).mp hfine _ _ hclient
    rw [Greeting.registers, hright, hwidth, hheight, hconfig] at hproduct
    exact absurd (hproduct (by decide)).2 (by decide)

end Bluecross
