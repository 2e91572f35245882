/-
# Bluecross.ConfigLoading — from a configuration file to the configuration of a program.

What `serde` finds in the file is a `ConfigFile`, in which any field may be absent; the defaults of the
source fill them in, and a section that is absent altogether is the derived `Default`, whose key is
empty. Then the key is checked, the dimensions are resolved with what the detection of the screen
answers, and the positions of the clients are read, in the order in which their map is iterated.

`loadServerConfig_eq_ok` and `loadClientConfig_eq_ok` say what it takes for a file to be accepted, and
what is then configured; `Fit.loaded`, that two files which fit together configure two programs that
have one passphrase, the client under a name the server knows.
-/
import Bluecross.Config
import Mathlib.Data.List.DropRight

namespace Bluecross

/-! ## Sections and their defaults -/

/-- The `server` section of a file. -/
structure ServerSection where
  host : Option String := none
  port : Option UInt16 := none
  screenWidth : Option Int32 := none
  screenHeight : Option Int32 := none
  edgeThreshold : Option Int32 := none
  clipboardSharing : Option Bool := none
  psk : Option String := none
  clients : Option (AList fun _ : String => String) := none

/-- The `client` section of a file. -/
structure ClientSection where
  serverHost : Option String := none
  serverPort : Option UInt16 := none
  screenWidth : Option Int32 := none
  screenHeight : Option Int32 := none
  name : Option String := none
  clipboardSharing : Option Bool := none
  psk : Option String := none

/-- A file may be for the server, for a client, or for both. -/
structure ConfigFile where
  server : Option ServerSection
  client : Option ClientSection

/-- The `server` section, its defaults filled in. -/
structure RawServerConfig where
  host : String
  port : UInt16
  screenWidth : Int32
  screenHeight : Int32
  edgeThreshold : Int32
  clipboardSharing : Bool
  psk : String
  clients : AList fun _ : String => String

/-- The `client` section, its defaults filled in. -/
structure RawClientConfig where
  serverHost : String
  serverPort : UInt16
  screenWidth : Int32
  screenHeight : Int32
  name : String
  clipboardSharing : Bool
  psk : String

/-- A file with the defaults of its sections filled in. -/
structure RawConfig where
  server : Option RawServerConfig
  client : Option RawClientConfig

/-- Loopback, so that the server is not exposed unless the operator opts in. -/
def defaultHost : String := "127.0.0.1"
/-- A client looks for its server on the machine it runs on. -/
def defaultLocalhost : String := "127.0.0.1"
/-- The port of both programs. -/
def defaultPort : UInt16 := 12345
/-- An edge begins five pixels from the border. -/
def defaultEdgeThreshold : Int32 := 5
/-- The clipboard is shared. -/
def defaultTrue : Bool := true
/-- The name of a client that is given none. -/
def defaultClientName : String := "client1"

/-- An absent field of the `server` section takes its default. -/
def RawServerConfig.ofSection (s : ServerSection) : RawServerConfig where
  host := s.host.getD defaultHost
  port := s.port.getD defaultPort
  screenWidth := s.screenWidth.getD 0
  screenHeight := s.screenHeight.getD 0
  edgeThreshold := s.edgeThreshold.getD defaultEdgeThreshold
  clipboardSharing := s.clipboardSharing.getD defaultTrue
  psk := s.psk.getD ""
  clients := s.clients.getD ∅

/-- An absent field of the `client` section takes its default. -/
def RawClientConfig.ofSection (s : ClientSection) : RawClientConfig where
  serverHost := s.serverHost.getD defaultLocalhost
  serverPort := s.serverPort.getD defaultPort
  screenWidth := s.screenWidth.getD 0
  screenHeight := s.screenHeight.getD 0
  name := s.name.getD defaultClientName
  clipboardSharing := s.clipboardSharing.getD defaultTrue
  psk := s.psk.getD ""

/-- An absent section stays absent. -/
def RawConfig.ofFile (f : ConfigFile) : RawConfig where
  server := f.server.map .ofSection
  client := f.client.map .ofSection

-- the derived `Default` takes the defaults of the types, not those of the fields
instance : Inhabited RawServerConfig := ⟨⟨"", 0, 0, 0, 0, false, "", ∅⟩⟩
instance : Inhabited RawClientConfig := ⟨⟨"", 0, 0, 0, "", false, ""⟩⟩
instance : Inhabited RawConfig := ⟨⟨none, none⟩⟩

/-! ## Checks -/

/-- The characters `str::trim` removes. -/
def isWhiteSpace (c : Char) : Bool :=
  let n := c.toNat
  (0x9 ≤ n ∧ n ≤ 0xD) ∨ n = 0x20 ∨ n = 0x85 ∨ n = 0xA0 ∨ n = 0x1680 ∨ (0x2000 ≤ n ∧ n ≤ 0x200A) ∨
    n = 0x2028 ∨ n = 0x2029 ∨ n = 0x202F ∨ n = 0x205F ∨ n = 0x3000

/-- `str::trim`: white space goes at both ends. -/
def trim (s : String) : String :=
  String.ofList ((s.toList.dropWhile isWhiteSpace).rdropWhile isWhiteSpace)

/-- Short keys are trivially brute-forced. -/
def MIN_PSK_LEN : Nat := 16

/-- A passphrase that is empty or short, white space around it aside, is refused. -/
def validatePsk (psk : String) : Except Error Unit :=
  if trim psk = "" then
    .error ("no 'psk' (pre-shared key) configured. BlueCross refuses to run without one: " ++
      "keystrokes and clipboard travel over the network and the client injects whatever " ++
      "the server sends. Set the same random 'psk' (>= " ++ toString MIN_PSK_LEN ++
      " chars) on server and client, e.g. generate one with: head -c 32 /dev/urandom | base64")
  else if (trim psk).utf8ByteSize < MIN_PSK_LEN then
    .error ("'psk' is too short; use at least " ++ toString MIN_PSK_LEN ++ " characters")
  else .ok ()

/-- A dimension of zero is replaced by the detected one. -/
def resolveDimensions (detected : Int32 × Int32) (width height : Int32) :
    Except Error (Int32 × Int32) :=
  let w := if width = 0 then detected.1 else width
  let h := if height = 0 then detected.2 else height
  if w ≤ 0 ∨ h ≤ 0 then
    .error ("invalid screen dimensions " ++ toString w.toInt ++ "x" ++ toString h.toInt ++
      "; set screen_width/screen_height in config")
  else .ok (w, h)

/-! ## Loading -/

/-- What is outside of the loader: whether the file exists and what reading and parsing it answers, the
detected screen, and the order in which the map of a file is iterated. -/
structure LoadEnv where
  file : Option (Except Error ConfigFile)
  detected : Int32 × Int32
  order : (AList fun _ : String => String) → List (String × String)
  order_perm : ∀ m, (order m).Perm (m.entries.map fun e => (e.1, e.2))

/-- A file that does not exist is one without sections. -/
def loadRaw (env : LoadEnv) : Except Error RawConfig :=
  match env.file with
  | some parsed => parsed.map .ofFile
  | none => .ok default

/-- The body of the loop over the clients of a file. -/
def insertClient (clients : AList fun _ : String => ScreenPosition) (entry : String × String) :
    Except Error (AList fun _ : String => ScreenPosition) :=
  match ScreenPosition.fromStr entry.2 with
  | some pos => .ok (clients.insert entry.1 pos)
  | none => .error ("Invalid position '" ++ entry.2 ++ "' for client '" ++ entry.1 ++ "'")

/-- The configuration of the server. -/
def loadServerConfig (env : LoadEnv) : Except Error ServerConfig := do
  let raw ← loadRaw env
  let s := raw.server.getD default
  validatePsk s.psk
  let (screenWidth, screenHeight) ← resolveDimensions env.detected s.screenWidth s.screenHeight
  let clients ← (env.order s.clients).foldlM insertClient ∅
  return {
    host := s.host
    port := s.port
    screenWidth := screenWidth
    screenHeight := screenHeight
    edgeThreshold := s.edgeThreshold
    clipboardSharing := s.clipboardSharing
    psk := trim s.psk
    clients := clients }

/-- The configuration of a client. -/
def loadClientConfig (env : LoadEnv) : Except Error ClientConfig := do
  let raw ← loadRaw env
  let c := raw.client.getD default
  validatePsk c.psk
  let (screenWidth, screenHeight) ← resolveDimensions env.detected c.screenWidth c.screenHeight
  return {
    serverHost := c.serverHost
    serverPort := c.serverPort
    screenWidth := screenWidth
    screenHeight := screenHeight
    name := c.name
    clipboardSharing := c.clipboardSharing
    psk := trim c.psk }

/-! ## What it takes to be accepted -/

theorem validatePsk_eq_ok {psk : String} :
    validatePsk psk = .ok () ↔ MIN_PSK_LEN ≤ (trim psk).utf8ByteSize := by
  unfold validatePsk
  split
  · rename_i hempty
    simp [hempty, MIN_PSK_LEN]
  · split
    · rename_i hshort
      simp [hshort]
    · rename_i hlong
      simpa using hlong

theorem resolveDimensions_eq_ok {detected : Int32 × Int32} {width height w h : Int32} :
    resolveDimensions detected width height = .ok (w, h) ↔
      (if width = 0 then detected.1 else width) = w ∧
        (if height = 0 then detected.2 else height) = h ∧ 0 < w ∧ 0 < h := by
  unfold resolveDimensions
  extract_lets w' h'
  split
  · rename_i hbad
    simp only [reduceCtorEq, false_iff]
    rintro ⟨rfl, rfl, hw, hh⟩
    rcases hbad with hbad | hbad
    · exact Int32.not_le.mpr hw hbad
    · exact Int32.not_le.mpr hh hbad
  · rename_i hgood
    rw [not_or, Int32.not_le, Int32.not_le] at hgood
    simp only [Except.ok.injEq, Prod.mk.injEq]
    constructor
    · rintro ⟨rfl, rfl⟩
      exact ⟨rfl, rfl, hgood⟩
    · rintro ⟨rfl, rfl, _⟩
      exact ⟨rfl, rfl⟩

/-- A configuration that is made of a `server` section. -/
structure Accepts (env : LoadEnv) (s : RawServerConfig) (config : ServerConfig) : Prop where
  host : config.host = s.host
  port : config.port = s.port
  dimensions : resolveDimensions env.detected s.screenWidth s.screenHeight =
    .ok (config.screenWidth, config.screenHeight)
  edgeThreshold : config.edgeThreshold = s.edgeThreshold
  clipboardSharing : config.clipboardSharing = s.clipboardSharing
  psk : config.psk = trim s.psk
  psk_long : MIN_PSK_LEN ≤ config.psk.utf8ByteSize
  clients : (env.order s.clients).foldlM insertClient ∅ = .ok config.clients

variable {env : LoadEnv} {s : RawServerConfig} {config : ServerConfig}

theorem loadServerConfig_eq_ok :
    loadServerConfig env = .ok config ↔
      ∃ raw, loadRaw env = .ok raw ∧ Accepts env (raw.server.getD default) config := by
  unfold loadServerConfig
  constructor
  · intro h
    obtain ⟨raw, hraw, h⟩ := bind_eq_ok.mp h
    obtain ⟨_, hpsk, h⟩ := bind_eq_ok.mp h
    obtain ⟨⟨w, h'⟩, hdims, h⟩ := bind_eq_ok.mp h
    obtain ⟨clients, hclients, h⟩ := bind_eq_ok.mp h
    cases h
    exact ⟨raw, hraw, rfl, rfl, hdims, rfl, rfl, rfl, validatePsk_eq_ok.mp hpsk, hclients⟩
  · rintro ⟨raw, hraw, hhost, hport, hdims, hthreshold, hsharing, hpsk, hlong, hclients⟩
    rw [hpsk] at hlong
    refine bind_eq_ok.mpr ⟨raw, hraw, bind_eq_ok.mpr ⟨(), validatePsk_eq_ok.mpr hlong, ?_⟩⟩
    refine bind_eq_ok.mpr ⟨_, hdims, bind_eq_ok.mpr ⟨_, hclients, ?_⟩⟩
    rw [← hhost, ← hport, ← hthreshold, ← hsharing, ← hpsk]
    rfl

theorem Accepts.sized (h : Accepts env s config) : config.Sized :=
  (resolveDimensions_eq_ok.mp h.dimensions).2.2

/-- An accepted configuration has a screen. -/
theorem loadServerConfig_sized (h : loadServerConfig env = .ok config) : config.Sized := by
  obtain ⟨raw, _, haccepts⟩ := loadServerConfig_eq_ok.mp h
  exact haccepts.sized

/-- One turn of the loop sets one name. -/
theorem lookup_insertClient {clients clients' : AList fun _ : String => ScreenPosition}
    {entry : String × String} (h : insertClient clients entry = .ok clients') (name : String) :
    clients'.lookup name =
      if name = entry.1 then ScreenPosition.fromStr entry.2 else clients.lookup name := by
  unfold insertClient at h
  split at h
  · rename_i pos hpos
    cases h
    split
    · rename_i hname
      rw [hname, AList.lookup_insert, hpos]
    · rename_i hname
      exact AList.lookup_insert_ne hname
  · cases h

/-- The loop reads the positions of the names it meets, each once. -/
theorem lookup_insertClients {entries : List (String × String)} :
    ∀ {clients clients' : AList fun _ : String => ScreenPosition},
      (entries.map Prod.fst).Nodup → entries.foldlM insertClient clients = .ok clients' →
      ∀ name, (∀ pos, (name, pos) ∈ entries → clients'.lookup name = ScreenPosition.fromStr pos) ∧
        (name ∉ entries.map Prod.fst → clients'.lookup name = clients.lookup name) := by
  induction entries with
  | nil =>
      intro clients clients' _ h name
      cases h
      exact ⟨nofun, fun _ => rfl⟩
  | cons entry entries ih =>
      intro clients clients' hnodup h name
      rw [List.map_cons, List.nodup_cons] at hnodup
      obtain ⟨hfresh, hnodup⟩ := hnodup
      rw [List.foldlM_cons] at h
      obtain ⟨between, hentry, h⟩ := bind_eq_ok.mp h
      obtain ⟨hmet, hunmet⟩ := ih hnodup h name
      have hfirst := lookup_insertClient hentry name
      refine ⟨?_, ?_⟩
      · intro pos hmem
        rcases List.mem_cons.mp hmem with rfl | hmem
        · rw [hunmet hfresh, hfirst, if_pos rfl]
        · exact hmet pos hmem
      · intro hnot
        rw [List.map_cons, List.mem_cons, not_or] at hnot
        rw [hunmet hnot.2, hfirst, if_neg hnot.1]

/-- The clients of an accepted configuration are those of the file, in whatever order they are read. -/
theorem Accepts.lookup_clients (h : Accepts env s config) (name : String) :
    config.clients.lookup name = (s.clients.lookup name).bind ScreenPosition.fromStr := by
  have hperm := env.order_perm s.clients
  have hkeys : ((env.order s.clients).map Prod.fst).Perm s.clients.keys := by
    have := hperm.map Prod.fst
    rwa [List.map_map] at this
  obtain ⟨hmet, hunmet⟩ :=
    lookup_insertClients (hkeys.nodup_iff.mpr s.clients.keys_nodup) h.clients name
  cases hpos : s.clients.lookup name with
  | none =>
      have hnot : name ∉ s.clients.keys := AList.lookup_eq_none.mp hpos
      rw [hunmet fun hmem => hnot (hkeys.subset hmem)]
      rfl
  | some pos =>
      refine hmet pos (hperm.mem_iff.mpr ?_)
      exact List.mem_map.mpr ⟨⟨name, pos⟩, AList.mem_lookup_iff.mp hpos, rfl⟩

/-- A configuration that is made of a `client` section. -/
structure AcceptsClient (env : LoadEnv) (c : RawClientConfig) (config : ClientConfig) : Prop where
  serverHost : config.serverHost = c.serverHost
  serverPort : config.serverPort = c.serverPort
  dimensions : resolveDimensions env.detected c.screenWidth c.screenHeight =
    .ok (config.screenWidth, config.screenHeight)
  name : config.name = c.name
  clipboardSharing : config.clipboardSharing = c.clipboardSharing
  psk : config.psk = trim c.psk
  psk_long : MIN_PSK_LEN ≤ config.psk.utf8ByteSize

theorem loadClientConfig_eq_ok {config : ClientConfig} :
    loadClientConfig env = .ok config ↔
      ∃ raw, loadRaw env = .ok raw ∧ AcceptsClient env (raw.client.getD default) config := by
  unfold loadClientConfig
  constructor
  · intro h
    obtain ⟨raw, hraw, h⟩ := bind_eq_ok.mp h
    obtain ⟨_, hpsk, h⟩ := bind_eq_ok.mp h
    obtain ⟨⟨w, h'⟩, hdims, h⟩ := bind_eq_ok.mp h
    cases h
    exact ⟨raw, hraw, rfl, rfl, hdims, rfl, rfl, rfl, validatePsk_eq_ok.mp hpsk⟩
  · rintro ⟨raw, hraw, hhost, hport, hdims, hname, hsharing, hpsk, hlong⟩
    rw [hpsk] at hlong
    refine bind_eq_ok.mpr ⟨raw, hraw, bind_eq_ok.mpr ⟨(), validatePsk_eq_ok.mpr hlong, ?_⟩⟩
    refine bind_eq_ok.mpr ⟨_, hdims, ?_⟩
    rw [← hhost, ← hport, ← hname, ← hsharing, ← hpsk]
    rfl

/-! ## Two files -/

/-- The passphrases are the same, white space around them aside, and the server's file has the name in
the client's, at a position. -/
structure Fit (s : RawServerConfig) (c : RawClientConfig) (position : ScreenPosition) : Prop where
  psk : trim s.psk = trim c.psk
  client : (s.clients.lookup c.name).bind ScreenPosition.fromStr = some position

/-- Programs that are configured by files which fit have one key, and the server knows the client. -/
theorem Fit.loaded {c : RawClientConfig} {position : ScreenPosition} (h : Fit s c position)
    {env' : LoadEnv} {config' : ClientConfig} (hserver : Accepts env s config)
    (hclient : AcceptsClient env' c config') :
    config.psk = config'.psk ∧ config.clients.lookup config'.name = some position := by
  refine ⟨?_, ?_⟩
  · rw [hserver.psk, hclient.psk, h.psk]
  · rw [hserver.lookup_clients, hclient.name, h.client]

/-! ## A file -/

/-- A file with one client to the right, on a screen that is detected. -/
def houseFile (threshold : Option Int32) : LoadEnv where
  file := some (.ok ⟨some {
    edgeThreshold := threshold
    psk := some "0123456789abcdef"
    clients := some (AList.singleton "laptop" "right") }, none⟩)
  detected := (1920, 1080)
  order m := m.entries.map fun e => (e.1, e.2)
  order_perm _ := .refl _

/-- What that file configures, under a threshold. -/
def houseConfig (threshold : Int32) : ServerConfig where
  host := "127.0.0.1"
  port := 12345
  screenWidth := 1920
  screenHeight := 1080
  edgeThreshold := threshold
  clipboardSharing := true
  psk := "0123456789abcdef"
  clients := AList.singleton "laptop" .right

theorem load_houseFile (threshold : Option Int32) :
    loadServerConfig (houseFile threshold) =
      .ok (houseConfig (threshold.getD defaultEdgeThreshold)) := by
  have hpsk : trim "0123456789abcdef" = "0123456789abcdef" := by decide
  have hlong : MIN_PSK_LEN ≤ "0123456789abcdef".utf8ByteSize := by decide
  exact loadServerConfig_eq_ok.mpr
    ⟨_, rfl, rfl, rfl, rfl, rfl, rfl, hpsk.symm, hlong, rfl⟩

end Bluecross
