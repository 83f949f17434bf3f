import NamedData.Proofs.FaceUri.FixedPoint

/-!
# Spellings of one address

Canonization brings the spellings of an address and a port to one text, but it keeps the zone as it
was spelled. So canonical URIs of one socket address are equal exactly when their zones are spelled
alike.
-/

namespace NamedData.FaceUri

variable {env : Environment} {u v : FaceUri} {ip : Ip} {zone zone' : Option (List Char)}

theorem addressPath_inj (ip : Ip) : addressPath ip zone = addressPath ip zone' ↔ zone = zone' := by
  refine ⟨fun h => ?_, congrArg (addressPath ip)⟩
  have hzone := zone?_of_path (u := ⟨.udp, [], addressPath ip zone, 0, true⟩) rfl
  have hzone' := zone?_of_path (u := ⟨.udp, [], addressPath ip zone, 0, true⟩) h
  exact hzone.symm.trans hzone'

theorem authority_inj : authority ip zone = authority ip zone' ↔ zone = zone' := by
  rw [authority, authority, ← addressPath_inj ip]
  split <;> simp

theorem AddressScheme.eq {kind : UriKind} {scheme scheme' : List Char}
    (h : AddressScheme ip kind scheme) (h' : AddressScheme ip kind scheme')
    (hsecure : kind = .webSocket → scheme = scheme') : scheme = scheme' := by
  cases h with
  | udp | tcp => cases h'; rfl
  | ws | wss => exact hsecure rfl

/-- Canonical URIs of one socket address can only differ in how their zones are spelled. -/
theorem Canonical.exists_spellings (hu : Canonical env u) (hv : Canonical env v)
    (haddress : u.hasAddress = true) (hkind : u.kind = v.kind)
    (hsecure : u.kind = .webSocket → u.scheme = v.scheme)
    (haddr : u.socketAddr? env = v.socketAddr? env) :
    ∃ ip kind scheme port, AddressScheme ip kind scheme
      ∧ u = ⟨kind, scheme, addressPath ip u.zone?, port, true⟩
      ∧ v = ⟨kind, scheme, addressPath ip v.zone?, port, true⟩ := by
  have haddress' : v.hasAddress = true := by rwa [hasAddress, ← hkind]
  obtain ⟨ip, zone, hscheme, hpath, hzone, -⟩ := hu.exists_address haddress
  obtain ⟨ip', zone', hscheme', hpath', hzone', -⟩ := hv.exists_address haddress'
  obtain ⟨addr, hsome, rfl, hport⟩ := exists_socketAddr haddress hpath hzone
  obtain ⟨addr', hsome', rfl, hport'⟩ := exists_socketAddr haddress' hpath' hzone'
  obtain rfl : addr = addr' := by simpa [hsome, hsome'] using haddr
  have hequal : u.scheme = v.scheme := hscheme.eq (hkind ▸ hscheme') hsecure
  refine ⟨addr.ip, u.kind, u.scheme, addr.port, hscheme, ?_, ?_⟩
  · rw [zone?_of_path hpath, hport, ← hpath, ← hu.marked.1]
  · rw [zone?_of_path hpath', hport', ← hpath', ← hv.marked.1, hkind, hequal]

/-- Two canonical URIs of one kind and one socket address have the same text, and are equal, just
when their zones are spelled alike. -/
theorem same_iff_zone_spelled_alike (env : Environment) (s t : String)
    (hs : (decode env s).canonical = true) (ht : (decode env t).canonical = true)
    (haddress : (decode env s).hasAddress = true)
    (hkind : (decode env s).kind = (decode env t).kind)
    (hsecure : (decode env s).kind = .webSocket → (decode env s).scheme = (decode env t).scheme)
    (haddr : (decode env s).socketAddr? env = (decode env t).socketAddr? env) :
    ((decode env s).toText = (decode env t).toText
        ↔ (decode env s).zone? = (decode env t).zone?)
      ∧ (decode env s = decode env t ↔ (decode env s).zone? = (decode env t).zone?) := by
  have hu := Made.canonical (.read s) hs
  have hv := Made.canonical (.read t) ht
  generalize decode env s = u at *
  generalize decode env t = v at *
  obtain ⟨ip, kind, scheme, port, hscheme, hu, hv⟩ :=
    hu.exists_spellings hv haddress hkind hsecure haddr
  generalize u.zone? = zone at *
  generalize v.zone? = zone' at *
  subst hu hv
  constructor
  · rw [toText, toText, String.ofList_inj, hscheme.toChars, hscheme.toChars,
      List.append_cancel_left_eq, List.append_cancel_right_eq, authority_inj]
  · rw [FaceUri.mk.injEq]
    simp [addressPath_inj]

theorem same_iff_zone_spelled_alike_of_mapped_address :
    (decode .standalone "udp://[::ffff:10.0.0.1%lo]:80").canonical = true
      ∧ (decode .standalone "UDP6://[0:0:0:0:0:FFFF:a00:1%lo]:080").toText
        = (decode .standalone "udp://[::ffff:10.0.0.1%lo]:80").toText := by
  have hs : decode .standalone "UDP6://[0:0:0:0:0:FFFF:a00:1%lo]:080"
      = ⟨.udp, "udp6".toList, "::ffff:10.0.0.1%lo".toList, 80, true⟩ := by cbv
  have ht : decode .standalone "udp://[::ffff:10.0.0.1%lo]:80"
      = ⟨.udp, "udp6".toList, "::ffff:10.0.0.1%lo".toList, 80, true⟩ := by cbv
  refine ⟨by rw [ht], (same_iff_zone_spelled_alike .standalone _ _ ?_ ?_ ?_ ?_ ?_ ?_).1.mpr ?_⟩
  · rw [hs]
  · rw [ht]
  · rw [hs]; rfl
  · rw [hs, ht]
  · rw [hs, ht]; exact fun _ => rfl
  · rw [hs, ht]
  · rw [hs, ht]

/-- Two spellings of one zone number make two canonical URIs of one socket address. -/
theorem zone_number_spelled_twice :
    (decode .standalone "udp6://[fe80::1%01]:6363").canonical = true
      ∧ (decode .standalone "udp6://[fe80::1%1]:6363").canonical = true
      ∧ (decode .standalone "udp6://[fe80::1%01]:6363").kind = .udp
      ∧ (decode .standalone "udp6://[fe80::1%1]:6363").kind = .udp
      ∧ (decode .standalone "udp6://[fe80::1%01]:6363").socketAddr? .standalone
        = (decode .standalone "udp6://[fe80::1%1]:6363").socketAddr? .standalone
      ∧ (decode .standalone "udp6://[fe80::1%01]:6363").toText
        ≠ (decode .standalone "udp6://[fe80::1%1]:6363").toText
      ∧ decode .standalone "udp6://[fe80::1%01]:6363"
        ≠ decode .standalone "udp6://[fe80::1%1]:6363" := by
  have h01 : decode .standalone "udp6://[fe80::1%01]:6363"
      = ⟨.udp, "udp6".toList, "fe80::1%01".toList, 6363, true⟩ := by cbv
  have h1 : decode .standalone "udp6://[fe80::1%1]:6363"
      = ⟨.udp, "udp6".toList, "fe80::1%1".toList, 6363, true⟩ := by cbv
  rw [h01, h1]
  refine ⟨rfl, rfl, rfl, rfl, by cbv, by decide +kernel, by decide +kernel⟩

end NamedData.FaceUri
