import NamedData.Address.Environment
import NamedData.Address.Literal
import NamedData.Address.Socket
import NamedData.Bytes
import NamedData.Error
import NamedData.Face.Property

/-!
# Face URIs

A face URI names one end of a face. Its canonical form is the only text of its address; a face can
be made from canonical URIs alone.
-/

namespace NamedData

/-- What kind of end a URI names. -/
inductive UriKind where
  | unknown
  | dev
  | ethernet
  | fd
  | internal
  | null
  | udp
  | tcp
  | unix
  | webSocket
deriving DecidableEq, Repr

/-- A URI in parts. The path of an address holds the host and, behind a percent sign, its zone. -/
structure FaceUri where
  kind : UriKind
  scheme : List Char
  path : List Char
  port : UInt16
  canonical : Bool
deriving DecidableEq, Repr

namespace FaceUri

def raw (kind : UriKind) (scheme : String) (path : List Char) (port : UInt16) : FaceUri :=
  ⟨kind, scheme.toList, path, port, false⟩

def unknown : FaceUri :=
  raw .unknown "unknown" [] 0

/-! ## Parts -/

def hasAddress (u : FaceUri) : Bool :=
  u.kind == .udp || u.kind == .tcp || u.kind == .webSocket

/-- The host, without its zone. -/
def host (u : FaceUri) : List Char :=
  u.path.takeWhile (· ≠ '%')

/-- The text behind the first percent sign. -/
def zone? (u : FaceUri) : Option (List Char) :=
  match u.path.dropWhile (· ≠ '%') with
  | [] => none
  | _ :: zone => some zone

def toChars (u : FaceUri) : List Char :=
  match u.kind with
  | .unknown => "unknown://".toList
  | .ethernet => "ether://[".toList ++ u.path ++ [']']
  | _ =>
    let authority := if u.host.contains ':' then '[' :: u.path ++ [']'] else u.path
    if u.hasAddress then
      u.scheme ++ "://".toList ++ authority ++ ':' :: Numeral.decimal u.port.toNat
    else u.scheme ++ "://".toList ++ u.path

def toText (u : FaceUri) : String :=
  String.ofList u.toChars

/-- The interface that a zone means: a number, or the name of an interface. -/
def zoneIndex? (env : Environment) (zone : List Char) : Option UInt32 :=
  if zone = [] then none
  else match Numeral.decimal32? zone with
    | some index => some index
    | none => (env.interfaceIndex? zone).filter (· ≠ 0)

/-- The socket address of a URI whose host is an address. -/
def socketAddr? (env : Environment) (u : FaceUri) : Option SocketAddr :=
  if u.hasAddress then
    match Ip.parse? u.host with
    | none => none
    | some (.v4 ip) => some (.v4 ip u.port)
    | some (.v6 ip) =>
      match u.zone? with
      | none => some (.v6 ip u.port 0)
      | some zone => (zoneIndex? env zone).map (.v6 ip u.port)
  else none

/-- The scope that follows from the kind and the address. -/
def scope (u : FaceUri) : Scope :=
  if !u.canonical then .unknown
  else match u.kind with
    | .dev | .ethernet => .nonLocal
    | .udp | .tcp | .webSocket =>
      if (Ip.parse? u.host).any Ip.isLoopback then .isLocal else .nonLocal
    | .unknown => .unknown
    | .fd | .unix | .internal | .null => .isLocal

/-! ## Canonical form -/

/-- The address that a host means to a scheme of one family or of both. -/
def resolveHost (env : Environment) (host : List Char) (wantV4 wantV6 : Bool) : Option Ip :=
  let fits (ip : Ip) : Bool := (!wantV4 || ip.isV4) && (!wantV6 || ip.isV6)
  match Ip.parse? host with
  | some ip =>
    let ip := match ip with
      | .v6 v6 => if wantV4 then (v6.toIpv4Mapped?.map Ip.v4).getD ip else ip
      | .v4 _ => ip
    if fits ip then some ip else none
  | none => (env.resolve host).find? fits

/-- The address of the path and its zone, where a zone must be one that the machine has. -/
def resolvePath (env : Environment) (u : FaceUri) (wantV4 wantV6 : Bool) :
    Option (Ip × List Char) :=
  match u.zone? with
  | none => (resolveHost env u.host wantV4 wantV6).map (·, [])
  | some zone =>
    if (zoneIndex? env zone).isNone then none
    else (resolveHost env u.host wantV4 wantV6).map (·, '%' :: zone)

/-- The six bytes of a hardware address, between colons or hyphens. -/
def hardwareAddress? (cs : List Char) : Option Bytes := do
  let parts := cs.splitOnP fun c => c == ':' || c == '-'
  guard (parts.length = 6)
  parts.mapM fun part =>
    match part with
    | [high, low] => Numeral.hexByte? high low
    | _ => none

def hardwarePath (address : Bytes) : List Char :=
  List.intercalate [':'] (address.map Numeral.hexByte)

def isInterfaceChar (c : Char) : Bool :=
  c.isAlphanum || c == '-' || c == '_' || c == '.'

/-- A scheme with the number of the address's family behind it. -/
def familyScheme (base : String) (ip : Ip) : List Char :=
  base.toList ++ (if ip.isV4 then ['4'] else ['6'])

/-- What is done to a URI in its place. It may fail, and leaves the URI as it is by then. -/
abbrev Edit := EStateM Error FaceUri

namespace Edit

def refuse {α : Type} : Edit α := do
  throw (.nonCanonicalUri (← get).toText)

def demand (condition : Prop) [Decidable condition] : Edit Unit :=
  if condition then pure () else refuse

/-- Refuses the URI if there is no value. -/
def require {α : Type} : Option α → Edit α
  | some a => pure a
  | none => refuse

end Edit

open Edit (refuse demand require)

/-- Brings the scheme and the path to the canonical form of the address on this machine. -/
def canonizeParts (env : Environment) : Edit Unit := do
  let u ← get
  match u.kind with
  | .udp | .tcp =>
    let base := if u.kind = .udp then "udp" else "tcp"
    let family := u.scheme.getLast?
    let (ip, zone) ← require (resolvePath env u (family == some '4') (family == some '6'))
    demand (u.port ≠ 0)
    modify fun u => { u with scheme := familyScheme base ip }
    modify fun u => { u with path := ip.toChars ++ zone }
  | .webSocket =>
    let (ip, zone) ← require (resolvePath env u false false)
    demand (u.port ≠ 0)
    modify fun u => { u with path := ip.toChars ++ zone }
  | .unix =>
    demand (u.path ≠ [] ∧ u.port = 0)
    match env.pathStatus u.path with
    | .directory | .unreadable => refuse
    | .other | .absent => pure ()
  | .dev => demand (u.path ≠ [] ∧ u.path.all isInterfaceChar)
  | .ethernet =>
    let address ← require (hardwareAddress? u.path)
    modify fun u => { u with path := hardwarePath address }
  | .fd => demand (Numeral.decimal32? u.path).isSome
  | .null | .internal => pure ()
  | .unknown => throw (.unsupportedScheme (String.ofList u.scheme))

def canonizeInPlace (env : Environment) : Edit Unit := do
  modify fun u => { u with canonical := false }
  canonizeParts env
  modify fun u => { u with canonical := true }

/-- The canonical URI, or why there is none. -/
def canonize (env : Environment) (u : FaceUri) : Except Error FaceUri :=
  match canonizeInPlace env u with
  | .ok _ v => .ok v
  | .error e _ => .error e

/-- What becomes of a URI that is brought to its canonical form, also if that fails. -/
def canonized (env : Environment) (u : FaceUri) : FaceUri :=
  match canonizeInPlace env u with
  | .ok _ v | .error _ v => v

/-! ## Making URIs -/

def udp (env : Environment) (addr : SocketAddr) : FaceUri :=
  (raw .udp "udp" addr.host addr.port).canonized env

def tcp (env : Environment) (addr : SocketAddr) : FaceUri :=
  (raw .tcp "tcp" addr.host addr.port).canonized env

def webSocket (env : Environment) (addr : SocketAddr) (secure : Bool) : FaceUri :=
  (raw .webSocket (if secure then "wss" else "ws") addr.host addr.port).canonized env

def unix (env : Environment) (path : List Char) : FaceUri :=
  (raw .unix "unix" path 0).canonized env

def dev (env : Environment) (interface : List Char) : FaceUri :=
  (raw .dev "dev" interface 0).canonized env

def ethernet (env : Environment) (address : Bytes) : FaceUri :=
  (raw .ethernet "ether" (hardwarePath address) 0).canonized env

def fd (env : Environment) (descriptor : Int32) : FaceUri :=
  (raw .fd "fd" (toString descriptor).toList 0).canonized env

def null : FaceUri :=
  { raw .null "null" [] 0 with canonical := true }

def internal : FaceUri :=
  { raw .internal "internal" [] 0 with canonical := true }

/-! ## Reading URIs -/

/-- The text before the first `://`, and the text behind it. -/
def splitScheme? : List Char → Option (List Char × List Char)
  | ':' :: '/' :: '/' :: rest => some ([], rest)
  | [] => none
  | c :: rest => (splitScheme? rest).map fun (scheme, path) => (c :: scheme, path)

/-- Without any brackets around it. -/
def trimBrackets (cs : List Char) : List Char :=
  ((cs.dropWhile (· == '[')).reverse.dropWhile (· == ']')).reverse

/-- A host and a port, which is what stands behind the last colon; an unreadable port is zero. -/
def ofHostPort (kind : UriKind) (scheme rest : List Char) : FaceUri :=
  let reversed := rest.reverse
  let port := (reversed.takeWhile (· ≠ ':')).reverse
  match reversed.dropWhile (· ≠ ':') with
  | [] => ⟨kind, scheme, rest, 0, false⟩
  | _ :: host =>
    ⟨kind, scheme, trimBrackets host.reverse, (Numeral.decimal16? port).getD 0, false⟩

/-- Splits a URI into its parts, in whatever form they are. -/
def ofParts (scheme rest : List Char) : FaceUri :=
  match String.ofList scheme with
  | "udp" | "udp4" | "udp6" => ofHostPort .udp scheme rest
  | "tcp" | "tcp4" | "tcp6" => ofHostPort .tcp scheme rest
  | "ws" | "wss" => ofHostPort .webSocket scheme rest
  | "unix" => raw .unix "unix" rest 0
  | "dev" => raw .dev "dev" rest 0
  | "fd" => raw .fd "fd" rest 0
  | "ether" => raw .ethernet "ether" (trimBrackets rest) 0
  | "null" => if rest = [] then raw .null "null" [] 0 else unknown
  | "internal" => if rest = [] then raw .internal "internal" [] 0 else unknown
  | _ => unknown

/-- Reads any text; what is no face URI has the kind `unknown`, and not all are canonical. -/
def decode (env : Environment) (text : String) : FaceUri :=
  match splitScheme? text.toList with
  | none => unknown
  | some (scheme, rest) => (ofParts (scheme.map Char.toLower) rest).canonized env

/-- Reads a text that has a canonical form. -/
def parse (env : Environment) (text : String) : Except Error FaceUri :=
  let u := decode env text
  if u.kind = .unknown then .error (.unsupportedScheme text)
  else if u.canonical then .ok u
  else .error (.nonCanonicalUri text)

end FaceUri

end NamedData
