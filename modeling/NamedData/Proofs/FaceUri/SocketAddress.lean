import NamedData.Proofs.FaceUri.FixedPoint

/-!
# Socket addresses read back

A URI that is made for a socket address is canonical and keeps the address, its port and its scope,
on whatever machine its text is read.
-/

namespace NamedData

open Numeral

namespace SocketAddr

/-- The zone that stands for the scope of an address, if it has a scope. -/
def zone? : SocketAddr → Option (List Char)
  | v4 _ _ => none
  | v6 _ _ scopeId => if scopeId = 0 then none else some (decimal scopeId.toNat)

theorem host_eq (addr : SocketAddr) : addr.host = FaceUri.addressPath addr.ip addr.zone? := by
  cases addr with
  | v4 ip port => rfl
  | v6 ip port scopeId =>
      simp only [host, zone?]
      split <;> rfl

theorem exists_of_mem_zone? {addr : SocketAddr} {zone : List Char} (h : zone ∈ addr.zone?) :
    ∃ scopeId : UInt32, zone = decimal scopeId.toNat := by
  cases addr with
  | v4 ip port => cases h
  | v6 ip port scopeId =>
      obtain ⟨-, hzone⟩ := Option.ite_none_left_eq_some.mp h
      exact ⟨scopeId, (Option.some.inj hzone).symm⟩

end SocketAddr

namespace FaceUri

variable {env : Environment} {u : FaceUri} {addr : SocketAddr} {zone : List Char}

/-! ## Zones -/

/-- A number is a zone on every machine. -/
theorem zoneIndex?_decimal (env : Environment) (scopeId : UInt32) :
    zoneIndex? env (decimal scopeId.toNat) = some scopeId := by
  have hne : decimal scopeId.toNat ≠ [] := Nat.toDigits_ne_nil
  simp [zoneIndex?, hne, decimal32?_decimal]

theorem isSome_zoneIndex?_of_mem (env : Environment) (h : zone ∈ addr.zone?) :
    (zoneIndex? env zone).isSome := by
  obtain ⟨scopeId, rfl⟩ := SocketAddr.exists_of_mem_zone? h
  rw [zoneIndex?_decimal, Option.isSome_some]

theorem bracket_not_mem_of_mem (h : zone ∈ addr.zone?) : ']' ∉ zone := by
  obtain ⟨scopeId, rfl⟩ := SocketAddr.exists_of_mem_zone? h
  intro hmem
  exact absurd (Nat.isDigit_of_mem_toDigits (by decide) (by decide) hmem) (by decide)

/-! ## URIs of socket addresses -/

theorem socketAddr?_of_path (env : Environment) (haddress : u.hasAddress = true)
    (hpath : u.path = addressPath addr.ip addr.zone?) (hport : u.port = addr.port) :
    u.socketAddr? env = some addr := by
  rw [socketAddr?, if_pos haddress, host_of_path hpath, Ip.parse?_toChars, zone?_of_path hpath,
    hport]
  cases addr with
  | v4 ip port => rfl
  | v6 ip port scopeId =>
      by_cases hscope : scopeId = 0
      · simp [SocketAddr.ip, SocketAddr.port, SocketAddr.zone?, hscope]
      · simp [SocketAddr.ip, SocketAddr.port, SocketAddr.zone?, hscope, zoneIndex?_decimal]

/-- What is made for a socket address is canonical at once. -/
theorem exists_of_made (hport : addr.port ≠ 0)
    (hu : u ∈ [udp env addr, tcp env addr, webSocket env addr true, webSocket env addr false]) :
    ∃ kind scheme, AddressScheme addr.ip kind scheme
      ∧ u = ⟨kind, scheme, addressPath addr.ip addr.zone?, addr.port, true⟩ := by
  -- No scheme of these asks for one family.
  have hresolve (kind : UriKind) (scheme : String) :
      ∃ zoneText, resolvePath env (raw kind scheme addr.host addr.port) false false
          = some (addr.ip, zoneText)
        ∧ addr.ip.toChars ++ zoneText = addressPath addr.ip addr.zone? :=
    resolvePath_of_path _ addr.host_eq (fun z hz => isSome_zoneIndex?_of_mem env hz) (by simp)
      (by simp)
  simp only [List.mem_cons, List.not_mem_nil, or_false] at hu
  rcases hu with rfl | rfl | rfl | rfl
  · obtain ⟨zoneText, hresolve, htext⟩ := hresolve .udp "udp"
    refine ⟨_, _, .udp, ?_⟩
    simp [raw] at hresolve
    simp [udp, canonized_eq_getD, canonical?, raw, hresolve, hport, htext]
  · obtain ⟨zoneText, hresolve, htext⟩ := hresolve .tcp "tcp"
    refine ⟨_, _, .tcp, ?_⟩
    simp [raw] at hresolve
    simp [tcp, canonized_eq_getD, canonical?, raw, hresolve, hport, htext]
  · obtain ⟨zoneText, hresolve, htext⟩ := hresolve .webSocket "wss"
    refine ⟨_, _, .wss, ?_⟩
    simp [raw] at hresolve
    simp [webSocket, canonized_eq_getD, canonical?, raw, hresolve, hport, htext]
  · obtain ⟨zoneText, hresolve, htext⟩ := hresolve .webSocket "ws"
    refine ⟨_, _, .ws, ?_⟩
    simp [raw] at hresolve
    simp [webSocket, canonized_eq_getD, canonical?, raw, hresolve, hport, htext]

/-- The URIs of a socket address are canonical and keep the address, on the machine that makes them
and on each machine that reads their text. -/
theorem socketAddr_kept (addr : SocketAddr) (hport : addr.port ≠ 0) (env env' : Environment) :
    ∀ u ∈ [udp env addr, tcp env addr, webSocket env addr true, webSocket env addr false],
      u.canonical = true ∧ u.socketAddr? env = some addr
        ∧ parse env' u.toText = .ok u ∧ u.socketAddr? env' = some addr := by
  intro u hu
  obtain ⟨kind, scheme, hscheme, rfl⟩ := exists_of_made hport hu
  have haddress :
      hasAddress ⟨kind, scheme, addressPath addr.ip addr.zone?, addr.port, true⟩ = true := by
    cases hscheme <;> rfl
  have hcanonical :
      Canonical env' ⟨kind, scheme, addressPath addr.ip addr.zone?, addr.port, true⟩ :=
    .address hscheme (fun z hz => isSome_zoneIndex?_of_mem env' hz) hport
  have hparts := hscheme.readInParts addr.port fun z (hz : z ∈ addr.zone?) =>
    bracket_not_mem_of_mem hz
  exact ⟨rfl, socketAddr?_of_path env haddress rfl rfl, hcanonical.parse_of_readInParts hparts,
    socketAddr?_of_path env' haddress rfl rfl⟩

theorem socketAddr_kept_of_scoped_mapped_address :
    let addr : SocketAddr := .v6 ⟨#v[0, 0, 0, 0, 0, 0xFFFF, 0x0102, 0x0304]⟩ 6363 7
    addr.port ≠ 0 ∧ (udp .standalone addr).toText = "udp6://[::ffff:1.2.3.4%7]:6363"
      ∧ parse .standalone "udp6://[::ffff:1.2.3.4%7]:6363" = .ok (udp .standalone addr)
      ∧ (udp .standalone addr).socketAddr? .standalone = some addr := by
  intro addr
  have hport : addr.port ≠ 0 := by decide
  have htext : (udp .standalone addr).toText = "udp6://[::ffff:1.2.3.4%7]:6363" := by cbv
  obtain ⟨-, haddr, hparse, -⟩ :=
    socketAddr_kept addr hport .standalone .standalone _ List.mem_cons_self
  exact ⟨hport, htext, htext ▸ hparse, haddr⟩

end FaceUri

end NamedData
