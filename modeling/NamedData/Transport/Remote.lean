import NamedData.FaceUri

/-!
# Remote ends of socket transports

Before a socket is made, the URI must be of the transport's kind and canonical.
-/

namespace NamedData.Remote

/-- The address of a canonical URI of this kind. -/
def address (env : Environment) (kind : UriKind) (u : FaceUri) : Except Error SocketAddr :=
  if u.kind ≠ kind then .error (.unsupportedScheme (String.ofList u.scheme))
  else match if u.canonical then u.socketAddr? env else none with
    | some addr => .ok addr
    | none => .error (.nonCanonicalUri u.toText)

/-- The remote end of a UDP socket that is bound to a given local address. -/
def udp (env : Environment) (u : FaceUri) : Except Error SocketAddr :=
  address env .udp u

/-- The remote end of a UDP socket whose local address is chosen by the remote's family, so that
the address is looked for before the kind is checked. -/
def udpDial (env : Environment) (u : FaceUri) : Except Error SocketAddr :=
  match u.socketAddr? env with
  | none => .error (.nonCanonicalUri u.toText)
  | some _ => udp env u

/-- The remote end of a TCP connection. -/
def tcpDial (env : Environment) (u : FaceUri) : Except Error SocketAddr :=
  address env .tcp u

/-- The local address of a multicast face. -/
def multicast (env : Environment) (u : FaceUri) : Except Error SocketAddr :=
  address env .udp u

end NamedData.Remote
