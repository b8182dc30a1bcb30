import OrderEngine.ConfigGetters
import OrderEngine.ConnectionBalance

/-!
# OrderEngineApplication: from the configuration to the listening socket

`initialize` reads the address of the server from the configuration and makes the server, and
`start` binds its socket to the address. The port is an `int` for the one and 16 bits for the
other.
-/
namespace ServerPort

open ConfigParse ConfigReload ConfigGetters

/-- `server.ip` -/
def ipKey : Bytes := [0x73, 0x65, 0x72, 0x76, 0x65, 0x72, dot, 0x69, 0x70]

/-- `server.port` -/
def portKey : Bytes := [0x73, 0x65, 0x72, 0x76, 0x65, 0x72, dot, 0x70, 0x6F, 0x72, 0x74]

/-- `server.thread_num` -/
def threadNumKey : Bytes :=
  [0x73, 0x65, 0x72, 0x76, 0x65, 0x72, dot,
    0x74, 0x68, 0x72, 0x65, 0x61, 0x64, 0x5F, 0x6E, 0x75, 0x6D]

/-- `0.0.0.0` -/
def anyIp : Bytes := [0x30, dot, 0x30, dot, 0x30, dot, 0x30]

def defaultPort : CInt := ⟨8080, by decide⟩

def defaultThreadNum : CInt := ⟨4, by decide⟩

/-- A `TcpServer`, before it creates its reactors. -/
structure Server where
  ip : Bytes
  port : BitVec 16
  threadNum : Int
  running : Bool

/-- The constructor, for a port that comes as an `int`: the conversion to `uint16_t` keeps its
low 16 bits. -/
def Server.create (ip : Bytes) (port thread_num : CInt) (hardwareConcurrency : BitVec 32) :
    Server where
  ip := ip
  port := BitVec.ofInt 16 port
  threadNum := ConnectionBalance.threadNum (BitVec.ofInt 32 thread_num) hardwareConcurrency
  running := false

structure Application where
  config : Config
  tcpServer : Server

/-- `OrderEngineApplication::initialize`; `none` where it returns false. -/
def initializeApplication (loggerReady : Bool) (hardwareConcurrency : BitVec 32)
    (config_file : Bytes) (file : Reading) : Option Application :=
  if loggerReady = false then none
  else
    match Config.create.load config_file file with
    | none => none
    | some (loaded, config) =>
      if loaded = false then none
      else
        let server_ip := getString config ipKey anyIp
        let server_port := getInt config portKey defaultPort
        let thread_num := getInt config threadNumKey defaultThreadNum
        some {
          config := config
          tcpServer := .create server_ip server_port thread_num hardwareConcurrency }

/-- What the socket calls of `start` come to. -/
structure Kernel where
  opens : Bool
  inetPton : Bytes → Option (BitVec 32)
  binds : BitVec 32 → BitVec 16 → Bool
  listens : Bool

/-- The address that `start` binds to; `none` for an ip that is not valid. The C string ends at
its first zero. -/
def address (k : Kernel) (ip : Bytes) : Option (BitVec 32) :=
  if ip = anyIp then some 0 else k.inetPton (ip.takeWhile (· ≠ 0))

/-- What `start` returns, and the calls of `bind` that it makes, with the port in host order. -/
structure Started where
  result : Bool
  bindCalls : List (BitVec 32 × BitVec 16)

/-- `TcpServer::start`, as far as the listening socket. -/
def start (k : Kernel) (s : Server) : Started :=
  if s.running then { result := true, bindCalls := [] }
  else if k.opens = false then { result := false, bindCalls := [] }
  else
    match address k s.ip with
    | none => { result := false, bindCalls := [] }
    | some addr =>
      { result := k.binds addr s.port && k.listens, bindCalls := [(addr, s.port)] }

theorem toNat_ofInt_iff (n : Int) :
    ((BitVec.ofInt 16 n).toNat : Int) = n ↔ 0 ≤ n ∧ n ≤ 65535 := by
  rw [BitVec.toNat_ofInt]
  omega

/-- A successful start of the application has read the configuration, and its server has the
values that the getters answer. -/
theorem initialize_cases {loggerReady : Bool} {hardwareConcurrency : BitVec 32}
    {config_file : Bytes} {file : Reading} {app : Application}
    (h : initializeApplication loggerReady hardwareConcurrency config_file file = some app) :
    Config.create.load config_file file = some (true, app.config) ∧
      app.tcpServer = .create (getString app.config ipKey anyIp)
        (getInt app.config portKey defaultPort)
        (getInt app.config threadNumKey defaultThreadNum) hardwareConcurrency := by
  rw [initializeApplication] at h
  split at h
  · cases h
  · split at h
    · cases h
    · rename_i loaded config hload
      split at h
      · cases h
      · rename_i hloaded
        cases h
        rw [Bool.not_eq_false] at hloaded
        exact ⟨hloaded ▸ hload, rfl⟩

/-- The server binds to its own port, or does not bind. -/
theorem bindCalls_port {k : Kernel} {s : Server} {addr : BitVec 32} {port : BitVec 16}
    (h : (addr, port) ∈ (start k s).bindCalls) : port = s.port := by
  rw [start] at h
  split at h
  · cases h
  · split at h
    · cases h
    · split at h
      · cases h
      · simp only [List.mem_singleton, Prod.mk.injEq] at h
        exact h.2

/-- The port that is bound is the integer of the configuration exactly where this is a port. -/
theorem bound_port_iff {loggerReady : Bool} {hardwareConcurrency : BitVec 32}
    {config_file : Bytes} {file : Reading} {app : Application} {k : Kernel} {addr : BitVec 32}
    {port : BitVec 16}
    (hinit : initializeApplication loggerReady hardwareConcurrency config_file file = some app)
    (hbind : (addr, port) ∈ (start k app.tcpServer).bindCalls) :
    (port.toNat : Int) = getInt app.config portKey defaultPort ↔
      0 ≤ (getInt app.config portKey defaultPort).1 ∧
        (getInt app.config portKey defaultPort).1 ≤ 65535 := by
  obtain ⟨_, hserver⟩ := initialize_cases hinit
  have hport : app.tcpServer.port = BitVec.ofInt 16 (getInt app.config portKey defaultPort).1 := by
    rw [hserver, Server.create]
  rw [bindCalls_port hbind, hport]
  exact toNat_ofInt_iff _

/-- A machine on which every call succeeds; no other ip than the default one is valid. -/
def willing : Kernel where
  opens := true
  inetPton _ := none
  binds _ _ := true
  listens := true

/-- A file with one line, which sets `server.port`. -/
def portSetting (value : Bytes) (h : (portKey ++ equals :: value).length < StringOps.npos) : Text :=
  ⟨portKey ++ equals :: value, h⟩

/-- `80` and `70000`. -/
def port80 : Text := portSetting [0x38, 0x30] (by decide)
def port70000 : Text := portSetting [0x37, 0x30, 0x30, 0x30, 0x30] (by decide)

def applicationOf (content : Text) : Application where
  config := { configs := parsed content, configFile := [0x61] }
  tcpServer := .create (getString { configs := parsed content, configFile := [0x61] } ipKey anyIp)
    (getInt { configs := parsed content, configFile := [0x61] } portKey defaultPort)
    (getInt { configs := parsed content, configFile := [0x61] } threadNumKey defaultThreadNum) 8

theorem initialize_whole (content : Text) :
    initializeApplication true 8 [0x61] (.whole content) = some (applicationOf content) := by
  have hload := @load_reads .create [0x61] (.whole content) _ rfl content.2
  rw [initializeApplication, if_neg (by decide), hload]
  rfl

theorem bound_port_80 :
    ((80 : BitVec 16).toNat : Int) = getInt (applicationOf port80).config portKey defaultPort := by
  have hport : getInt (applicationOf port80).config portKey defaultPort = ⟨80, by decide⟩ := by
    decide
  have hbind : (0, 80) ∈ (start willing (applicationOf port80).tcpServer).bindCalls := by
    decide
  apply (bound_port_iff (initialize_whole port80) hbind).mpr
  rw [hport]
  decide

/-- With the port 70000 the application starts up, and its server listens on the port 4464. -/
theorem port_narrowed :
    ∃ app, initializeApplication true 8 [0x61] (.whole port70000) = some app ∧
      getInt app.config portKey defaultPort = ⟨70000, by decide⟩ ∧
      (start willing app.tcpServer).result = true ∧
      (start willing app.tcpServer).bindCalls = [(0, 4464)] :=
  ⟨applicationOf port70000, initialize_whole port70000, by decide, by decide, by decide⟩

end ServerPort
