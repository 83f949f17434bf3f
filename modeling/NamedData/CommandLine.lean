import NamedData.Config.Text

/-!
# The command line

Options are read from left to right; the first that is wrong, or a request for help, ends the
reading. A configuration file is read first and the other options override it.
-/

namespace NamedData.CommandLine

/-- The help text. -/
def help : String :=
  String.intercalate "\n" [
    "ndnd - NDN 포워더 face 데몬",
    "",
    "UDP/TCP/Unix/WebSocket 리스너를 열고 NDNLPv2 face를 만든다.",
    "",
    "사용법:",
    "  cargo run --release --bin ndnd -- [OPTIONS]",
    "",
    "옵션:",
    "  -c, --config <PATH>     TOML 설정 파일",
    "  --udp-port <PORT>       UDP 유니캐스트 포트 (기본: 6363)",
    "  --tcp-port <PORT>       TCP 포트 (기본: 6363)",
    "  --unix <PATH>           Unix 소켓 경로 (기본: /run/nfd.sock)",
    "  --ws-port <PORT>        WebSocket 포트 (기본: 9696, 0이면 끔)",
    "  -t, --threads <N>       포워딩 스레드 수 (기본: 8)",
    "  --low-spec              저사양 기기용 기본값 (스레드 2, 큐 256)",
    "  --log-level <LEVEL>     로그 레벨 (기본: info, RUST_LOG가 우선)",
    "  -h, --help              이 도움말 출력",
    "",
    "예시:",
    "  # 설정 파일 사용",
    "  cargo run --release --bin ndnd -- --config ndnd.toml",
    "",
    "  # 포트 변경",
    "  cargo run --release --bin ndnd -- --udp-port 16363 --tcp-port 16363",
    ""]

/-- What the options ask for. -/
structure Options where
  configPath : Option String := none
  udpPort : Option UInt16 := none
  tcpPort : Option UInt16 := none
  unixPath : Option String := none
  webSocketPort : Option UInt16 := none
  threads : Option Nat := none
  lowSpec : Bool := false
  logLevel : String := "info"
deriving DecidableEq, Repr

/-- Why the options cannot be read. -/
inductive UsageError where
  | missingValue (flag : String)
  | invalidValue (flag raw : String)
  | unknownOption (arg : String)
deriving DecidableEq, Repr

namespace UsageError

def message : UsageError → String
  | missingValue flag => s!"{flag}: 값이 필요합니다"
  | invalidValue flag raw => s!"{flag}: 유효하지 않은 값 '{raw}'"
  | unknownOption arg => s!"알 수 없는 옵션: {arg}"

end UsageError

/-- The flags that take a value. -/
inductive Flag where
  | config
  | udpPort
  | tcpPort
  | unix
  | webSocketPort
  | threads
  | logLevel
deriving DecidableEq, Repr

namespace Flag

def ofArg? : String → Option Flag
  | "--config" | "-c" => some config
  | "--udp-port" => some udpPort
  | "--tcp-port" => some tcpPort
  | "--unix" => some unix
  | "--ws-port" => some webSocketPort
  | "--threads" | "-t" => some threads
  | "--log-level" => some logLevel
  | _ => none

/-- The long name, which messages use. -/
def name : Flag → String
  | config => "--config"
  | udpPort => "--udp-port"
  | tcpPort => "--tcp-port"
  | unix => "--unix"
  | webSocketPort => "--ws-port"
  | threads => "--threads"
  | logLevel => "--log-level"

/-- Takes in the value of a flag, if it can be read. -/
def take? (o : Options) (raw : String) : Flag → Option Options
  | config => some { o with configPath := some raw }
  | udpPort => (Numeral.decimal16? raw.toList).map fun p => { o with udpPort := some p }
  | tcpPort => (Numeral.decimal16? raw.toList).map fun p => { o with tcpPort := some p }
  | unix => some { o with unixPath := some raw }
  | webSocketPort => (Numeral.decimal16? raw.toList).map fun p => { o with webSocketPort := some p }
  | threads =>
    (Numeral.decimal64? raw.toList).map fun n => { o with threads := some n.toNat }
  | logLevel => some { o with logLevel := raw }

end Flag

/-- What the arguments say: to show the help, or to run with these options. -/
inductive Command where
  | showHelp
  | run (options : Options)
deriving DecidableEq, Repr

/-- Reads arguments behind those that were already taken in. -/
def parseFrom (o : Options) : List String → Except UsageError Command
  | [] => .ok (.run o)
  | arg :: rest =>
    match Flag.ofArg? arg with
    | some flag =>
      match rest with
      | [] => .error (.missingValue flag.name)
      | raw :: rest =>
        match flag.take? o raw with
        | none => .error (.invalidValue flag.name raw)
        | some o => parseFrom o rest
    | none =>
      if arg = "--low-spec" then parseFrom { o with lowSpec := true } rest
      else if arg = "--help" ∨ arg = "-h" then .ok .showHelp
      else .error (.unknownOption arg)

def parse (args : List String) : Except UsageError Command :=
  parseFrom {} args

/-- The configuration that the options give, where `read` gives the bytes of a file. -/
def Options.load (o : Options) (read : String → Option ByteArray) : Except Error Config := do
  let base ← match o.configPath with
    | some path => Config.ofFile (read path)
    | none => .ok (if o.lowSpec then .lowSpec else {})
  return { base with
    udpPort := o.udpPort.getD base.udpPort
    tcpPort := o.tcpPort.getD base.tcpPort
    unixPath := o.unixPath.getD base.unixPath
    webSocketPort := o.webSocketPort.getD base.webSocketPort
    forwardingThreads := o.threads.getD base.forwardingThreads }

/-- How the program ends, or the configuration with which it goes on. -/
inductive Outcome where
  | exit (code : UInt8) (stdout stderr : String)
  | serve (config : Config)
deriving DecidableEq, Repr

/-- The name of what spoiled the configuration. -/
def loadFailure : Error → String
  | .io => "Io"
  | _ => "Config"

/-- What the program does with its arguments. -/
def outcome (args : List String) (read : String → Option ByteArray) : Outcome :=
  match parse args with
  | .error e => .exit 2 "" (e.message ++ "\n\n" ++ help ++ "\n")
  | .ok .showHelp => .exit 0 (help ++ "\n") ""
  | .ok (.run options) =>
    match options.load read with
    | .error e => .exit 1 "" ("Error: " ++ loadFailure e)
    | .ok config => .serve config

end NamedData.CommandLine
