import NamedData.Proofs.FaceUri.FixedPoint
import NamedData.Transport.Remote

/-!
# Refused remote ends

A socket transport tells a URI of another kind from one that is not canonical. Only the UDP
transport that chooses its local address by the remote's family looks for an address first, and
blames a URI without one for its form, whatever its kind is.
-/

namespace NamedData.Remote

open FaceUri

variable {env : Environment} {kind : UriKind} {u : FaceUri}

/-- What a transport of one kind answers to a URI: another kind is refused as such, the own kind is
refused if it is not canonical, and the rest has an address. -/
structure Classifies (env : Environment) (kind : UriKind) (u : FaceUri)
    (answer : Except Error SocketAddr) : Prop where
  unsupported : answer = .error (.unsupportedScheme (String.ofList u.scheme)) ↔ u.kind ≠ kind
  nonCanonical : answer = .error (.nonCanonicalUri u.toText) ↔ u.kind = kind ∧ u.canonical = false
  accepted : (∃ addr, answer = .ok addr ∧ u.socketAddr? env = some addr)
    ↔ u.kind = kind ∧ u.canonical = true
  blameless : u.canonical = true → ∀ text, answer ≠ .error (.nonCanonicalUri text)

/-! ## One answer for each URI -/

theorem address_of_other_kind (hkind : u.kind ≠ kind) :
    address env kind u = .error (.unsupportedScheme (String.ofList u.scheme)) :=
  if_pos hkind

theorem address_of_not_canonical (hkind : u.kind = kind) (hmarked : u.canonical = false) :
    address env kind u = .error (.nonCanonicalUri u.toText) := by
  simp [address, hkind, hmarked]

theorem address_of_canonical {addr : SocketAddr} (hkind : u.kind = kind)
    (hmarked : u.canonical = true) (haddr : u.socketAddr? env = some addr) :
    address env kind u = .ok addr := by
  simp [address, hkind, hmarked, haddr]

namespace Classifies

variable {answer : Except Error SocketAddr}

theorem of_other_kind (hkind : u.kind ≠ kind)
    (hanswer : answer = .error (.unsupportedScheme (String.ofList u.scheme))) :
    Classifies env kind u answer := by
  subst hanswer
  constructor <;> simp [hkind]

theorem of_not_canonical (hkind : u.kind = kind) (hmarked : u.canonical = false)
    (hanswer : answer = .error (.nonCanonicalUri u.toText)) : Classifies env kind u answer := by
  subst hanswer
  constructor <;> simp [hkind, hmarked]

theorem of_canonical {addr : SocketAddr} (hkind : u.kind = kind) (hmarked : u.canonical = true)
    (haddr : u.socketAddr? env = some addr) (hanswer : answer = .ok addr) :
    Classifies env kind u answer := by
  subst hanswer
  constructor <;> simp [hkind, hmarked, haddr]

end Classifies

/-! ## URIs that are read or made -/

/-- A canonical URI has a socket address exactly if its kind is one of an address. -/
theorem isSome_socketAddr?_eq (hmade : Made env u) (hmarked : u.canonical = true) :
    (u.socketAddr? env).isSome = u.hasAddress := by
  cases haddress : u.hasAddress with
  | true =>
      obtain ⟨-, addr, haddr, -⟩ := (hmade.canonical hmarked).socketAddr haddress
      rw [haddr, Option.isSome_some]
  | false => simp [socketAddr?, haddress]

theorem classifies_address (hmade : Made env u) (hkind : kind = .udp ∨ kind = .tcp) :
    Classifies env kind u (address env kind u) := by
  by_cases hown : u.kind = kind
  · cases hmarked : u.canonical with
    | false => exact .of_not_canonical hown hmarked (address_of_not_canonical hown hmarked)
    | true =>
        -- A canonical URI of either kind has an address, so the search for it cannot fail.
        have haddress : u.hasAddress = true := by
          rcases hkind with rfl | rfl <;> simp [hasAddress, hown]
        obtain ⟨addr, haddr⟩ := Option.isSome_iff_exists.mp
          ((isSome_socketAddr?_eq hmade hmarked).trans haddress)
        exact .of_canonical hown hmarked haddr (address_of_canonical hown hmarked haddr)
  · exact .of_other_kind hown (address_of_other_kind hown)

theorem udpDial_of_none (haddr : u.socketAddr? env = none) :
    udpDial env u = .error (.nonCanonicalUri u.toText) := by
  rw [udpDial, haddr]

/-- Dialling answers like a bound socket except where the URI is of another kind and has no
address. -/
theorem classifies_udpDial_iff (hmade : Made env u) :
    Classifies env .udp u (udpDial env u) ↔ u.kind = .udp ∨ (u.socketAddr? env).isSome := by
  have hudp : Classifies env .udp u (udp env u) := classifies_address hmade (.inl rfl)
  cases haddr : u.socketAddr? env with
  | some addr =>
      have hdial : udpDial env u = udp env u := by rw [udpDial, haddr]
      simp [hdial, hudp]
  | none =>
      refine ⟨fun h => .inl ?_, fun h => ?_⟩
      · exact (h.nonCanonical.mp (udpDial_of_none haddr)).1
      · have hown : u.kind = .udp := h.resolve_right (by simp)
        have hmarked : u.canonical = false := by
          by_contra hmarked
          obtain ⟨addr, -, h⟩ := hudp.accepted.mpr ⟨hown, Bool.eq_true_of_not_eq_false hmarked⟩
          rw [haddr] at h
          cases h
        exact .of_not_canonical hown hmarked (udpDial_of_none haddr)

/-- Whatever text is read: a bound UDP socket, a TCP connection and a multicast face tell wrong
kinds from wrong forms. A dialled UDP socket does so exactly for UDP and for URIs with an address;
all else, canonical or not, it calls not canonical. -/
theorem refusals_of_read_uris (env : Environment) (text : String) :
    let u := decode env text
    Classifies env .udp u (udp env u) ∧ Classifies env .tcp u (tcpDial env u)
      ∧ Classifies env .udp u (multicast env u)
      ∧ (Classifies env .udp u (udpDial env u) ↔ u.kind = .udp ∨ (u.socketAddr? env).isSome)
      ∧ (u.socketAddr? env = none → udpDial env u = .error (.nonCanonicalUri u.toText))
      ∧ (u.canonical = true → (u.socketAddr? env).isSome = u.hasAddress) := by
  have hmade : Made env (decode env text) := .read text
  exact ⟨classifies_address hmade (.inl rfl), classifies_address hmade (.inr rfl),
    classifies_address hmade (.inl rfl), classifies_udpDial_iff hmade, udpDial_of_none,
    isSome_socketAddr?_eq hmade⟩

/-- The null URI is canonical and of another kind, but is refused as not canonical. -/
theorem canonical_uri_is_blamed :
    decode .standalone "null://" = FaceUri.null ∧ FaceUri.null.canonical = true
      ∧ udpDial .standalone FaceUri.null = .error (.nonCanonicalUri "null://")
      ∧ ¬ Classifies .standalone .udp FaceUri.null (udpDial .standalone FaceUri.null) := by
  refine ⟨by cbv, rfl, by rfl, fun h => ?_⟩
  exact h.blameless rfl _ (udpDial_of_none rfl)

end NamedData.Remote
