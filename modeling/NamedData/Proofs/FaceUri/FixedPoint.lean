import NamedData.Proofs.FaceUri.Canonical

/-!
# Canonical URIs are fixed points

A canonical URI is its own canonical form, its text is read as that URI again, and it has a socket
address if it is of a kind that has one.
-/

namespace NamedData.FaceUri

variable {env : Environment} {u : FaceUri} {ip : Ip} {zone : Option (List Char)}

/-! ## Texts -/

/-- How a host and its zone stand before the port. -/
def authority (ip : Ip) (zone : Option (List Char)) : List Char :=
  if ip.isV4 then addressPath ip zone else '[' :: addressPath ip zone ++ [']']

theorem authority_eq (hpath : u.path = addressPath ip zone) :
    (if u.host.contains ':' then '[' :: u.path ++ [']'] else u.path) = authority ip zone := by
  have hcolon : ip.toChars.contains ':' = !ip.isV4 := by
    rw [Bool.eq_iff_iff, List.contains_iff_mem, Ip.colon_mem_toChars, Bool.not_eq_true']
  rw [host_of_path hpath, hcolon, hpath, authority]
  cases ip.isV4 <;> rfl

theorem trimBrackets_authority (hzone : ∀ z ∈ zone, ']' ∉ z) :
    trimBrackets (authority ip zone) = addressPath ip zone := by
  have hfront : (addressPath ip zone).head? ≠ some '[' := by
    have hhead : (addressPath ip zone).head? = ip.toChars.head? := by
      cases zone with
      | none => rfl
      | some z => exact List.head?_append_of_ne_nil _ ip.toChars_ne_nil
    intro h
    exact Ip.not_mem_toChars (.inr (.inl rfl)) (List.mem_of_mem_head? (hhead ▸ h))
  have hback : (addressPath ip zone).getLast? ≠ some ']' := by
    intro h
    have hmem := List.mem_of_getLast? h
    cases zone with
    | none => exact Ip.not_mem_toChars (.inr (.inr rfl)) hmem
    | some z =>
        rw [addressPath, List.mem_append, List.mem_cons] at hmem
        rcases hmem with hmem | hmem | hmem
        · exact Ip.not_mem_toChars (.inr (.inr rfl)) hmem
        · cases hmem
        · exact hzone z rfl hmem
  rw [authority]
  split
  · exact trimBrackets_eq hfront hback
  · exact trimBrackets_bracketed hfront hback

namespace AddressScheme

variable {kind : UriKind} {scheme : List Char}

theorem toChars (hscheme : AddressScheme ip kind scheme) (port : UInt16) (marked : Bool) :
    FaceUri.toChars ⟨kind, scheme, addressPath ip zone, port, marked⟩
      = scheme ++ "://".toList ++ (authority ip zone ++ ':' :: Numeral.decimal port.toNat) := by
  have hauthority := authority_eq (u := ⟨kind, scheme, addressPath ip zone, port, marked⟩) rfl
  cases hscheme with
  | udp | tcp | ws | wss =>
      rw [FaceUri.toChars]
      simp only [hauthority]
      exact List.append_assoc _ _ _

theorem ofParts (hscheme : AddressScheme ip kind scheme) (rest : List Char) :
    FaceUri.ofParts (scheme.map Char.toLower) rest = ofHostPort kind scheme rest := by
  cases hscheme with
  | udp | tcp => cases ip <;> rfl
  | ws | wss => rfl

theorem colon_not_mem (hscheme : AddressScheme ip kind scheme) : ':' ∉ scheme := by
  cases hscheme with
  | udp | tcp => cases ip <;> simp [familyScheme, Ip.isV4]
  | ws | wss => decide

end AddressScheme

/-- A URI whose text is divided into its parts again. -/
def ReadInParts (u : FaceUri) : Prop :=
  ∃ scheme rest, ':' ∉ scheme ∧ u.toChars = scheme ++ "://".toList ++ rest
    ∧ ofParts (scheme.map Char.toLower) rest = { u with canonical := false }

theorem AddressScheme.readInParts {kind : UriKind} {scheme : List Char}
    (hscheme : AddressScheme ip kind scheme) (port : UInt16) (hbracket : ∀ z ∈ zone, ']' ∉ z) :
    ReadInParts ⟨kind, scheme, addressPath ip zone, port, true⟩ := by
  refine ⟨scheme, _, hscheme.colon_not_mem, hscheme.toChars port true, ?_⟩
  rw [hscheme.ofParts, ofHostPort_append, trimBrackets_authority hbracket]

namespace Canonical

theorem readInParts (hnames : ∀ name index, env.interfaceIndex? name = some index → ']' ∉ name)
    (h : Canonical env u) : ReadInParts u := by
  cases h with
  | address hscheme hzone =>
      exact hscheme.readInParts _ fun z hz => bracket_not_mem_zone hnames (hzone z hz)
  | unix => exact ⟨"unix".toList, _, by decide, rfl, rfl⟩
  | dev => exact ⟨"dev".toList, _, by decide, rfl, rfl⟩
  | @ethernet address haddress =>
      refine ⟨"ether".toList, '[' :: hardwarePath address ++ [']'], by decide, ?_, ?_⟩
      · simp [toChars]
      · exact congrArg (raw .ethernet "ether" · 0) (trimBrackets_hardwarePath address)
  | fd => exact ⟨"fd".toList, _, by decide, rfl, rfl⟩
  | null => exact ⟨"null".toList, _, by decide, rfl, rfl⟩
  | internal => exact ⟨"internal".toList, _, by decide, rfl, rfl⟩

theorem decode_of_readInParts (h : Canonical env u) (hparts : ReadInParts u) :
    decode env u.toText = u := by
  obtain ⟨scheme, rest, hscheme, htext, hparts⟩ := hparts
  have hcanonized : canonized env { u with canonical := false } = u := by
    rw [canonized_eq_getD, canonical?_mark, h.canonical?_eq, Option.getD_some]
  rw [decode, toText, String.toList_ofList, htext, splitScheme?_append hscheme]
  dsimp only
  rw [hparts, hcanonized]

theorem parse_of_readInParts (h : Canonical env u) (hparts : ReadInParts u) :
    parse env u.toText = .ok u := by
  rw [parse, h.decode_of_readInParts hparts, if_neg h.marked.2, if_pos h.marked.1]

/-- The text of a canonical URI is read as that URI. -/
theorem decode_toText
    (hnames : ∀ name index, env.interfaceIndex? name = some index → ']' ∉ name)
    (h : Canonical env u) : decode env u.toText = u :=
  h.decode_of_readInParts (h.readInParts hnames)

/-- The text of a canonical URI is accepted. -/
theorem parse_toText (hnames : ∀ name index, env.interfaceIndex? name = some index → ']' ∉ name)
    (h : Canonical env u) : parse env u.toText = .ok u :=
  h.parse_of_readInParts (h.readInParts hnames)

end Canonical

/-! ## Socket addresses -/

/-- The socket address of a URI has the address of its path, whatever its zone is. -/
theorem exists_socketAddr (haddress : u.hasAddress = true) (hpath : u.path = addressPath ip zone)
    (hzone : ∀ z ∈ zone, (zoneIndex? env z).isSome) :
    ∃ addr, u.socketAddr? env = some addr ∧ addr.ip = ip ∧ addr.port = u.port := by
  rw [socketAddr?, if_pos haddress, host_of_path hpath, Ip.parse?_toChars, zone?_of_path hpath]
  cases ip with
  | v4 v4 => exact ⟨.v4 v4 u.port, rfl, rfl, rfl⟩
  | v6 v6 =>
      cases zone with
      | none => exact ⟨.v6 v6 u.port 0, rfl, rfl, rfl⟩
      | some z =>
          obtain ⟨index, hindex⟩ := Option.isSome_iff_exists.mp (hzone z rfl)
          exact ⟨.v6 v6 u.port index, by simp [hindex], rfl, rfl⟩

namespace Canonical

theorem exists_address (h : Canonical env u) (haddress : u.hasAddress = true) :
    ∃ ip zone, AddressScheme ip u.kind u.scheme ∧ u.path = addressPath ip zone
      ∧ (∀ z ∈ zone, (zoneIndex? env z).isSome) ∧ u.port ≠ 0 := by
  cases h with
  | address hscheme hzone hport => exact ⟨_, _, hscheme, rfl, hzone, hport⟩
  | unix | dev | ethernet | fd | null | internal => cases haddress

/-- A canonical URI of an address has a socket address, and its scheme tells the family. -/
theorem socketAddr (h : Canonical env u) (haddress : u.hasAddress = true) :
    u.port ≠ 0 ∧ ∃ addr, u.socketAddr? env = some addr ∧ addr.port = u.port
      ∧ (u.kind = .udp → u.scheme = familyScheme "udp" addr.ip)
      ∧ (u.kind = .tcp → u.scheme = familyScheme "tcp" addr.ip) := by
  obtain ⟨ip, zone, hscheme, hpath, hzone, hport⟩ := h.exists_address haddress
  obtain ⟨addr, haddr, rfl, haddrPort⟩ := exists_socketAddr haddress hpath hzone
  refine ⟨hport, addr, haddr, haddrPort, fun hkind => ?_, fun hkind => ?_⟩
  · rw [hkind] at hscheme
    generalize u.scheme = scheme at hscheme
    cases hscheme
    rfl
  · rw [hkind] at hscheme
    generalize u.scheme = scheme at hscheme
    cases hscheme
    rfl

end Canonical

/-! ## Fixed points -/

/-- A failed canonization only takes the mark away. -/
theorem canonized_of_error {e : Error} (h : u.canonize env = .error e) :
    u.canonized env = { u with canonical := false } := by
  cases hform : u.canonical? env with
  | some v => cases (canonize_eq_ok_of_canonical? hform).symm.trans h
  | none => rw [canonized_eq_getD, hform, Option.getD_none]

/-- What is read or made and is canonical is left as it is by canonization, by being written and
read, and has an address to send to. What has no canonical form is only marked so. -/
theorem canonical_fixed (env : Environment)
    (hnames : ∀ name index, env.interfaceIndex? name = some index → ']' ∉ name) :
    (∀ u, Made env u → u.canonical = true →
      u.canonize env = .ok u ∧ u.canonized env = u
        ∧ decode env u.toText = u ∧ parse env u.toText = .ok u
        ∧ (u.hasAddress = true → u.port ≠ 0
          ∧ ∃ addr, u.socketAddr? env = some addr ∧ addr.port = u.port
            ∧ (u.kind = .udp → u.scheme = familyScheme "udp" addr.ip)
            ∧ (u.kind = .tcp → u.scheme = familyScheme "tcp" addr.ip)))
      ∧ ∀ (u : FaceUri) (e : Error), u.canonize env = .error e →
        u.canonized env = { u with canonical := false } := by
  refine ⟨fun u hmade hmarked => ?_, fun u e => canonized_of_error⟩
  have h := hmade.canonical hmarked
  exact ⟨h.canonize_eq, h.canonized_eq, h.decode_toText hnames, h.parse_toText hnames,
    h.socketAddr⟩

theorem canonical_fixed_with_interface_zone :
    (∀ name index, Environment.standalone.interfaceIndex? name = some index → ']' ∉ name)
      ∧ decode .standalone "UDP://[FE80:0::1%lo]:06363"
        = ⟨.udp, "udp6".toList, "fe80::1%lo".toList, 6363, true⟩
      ∧ parse .standalone "udp6://[fe80::1%lo]:6363"
        = .ok ⟨.udp, "udp6".toList, "fe80::1%lo".toList, 6363, true⟩ := by
  have hnames (name : List Char) (index : UInt32)
      (h : Environment.standalone.interfaceIndex? name = some index) : ']' ∉ name := by
    obtain ⟨rfl, -⟩ := Option.ite_none_right_eq_some.mp h
    decide
  have hdecode : decode .standalone "UDP://[FE80:0::1%lo]:06363"
      = ⟨.udp, "udp6".toList, "fe80::1%lo".toList, 6363, true⟩ := by cbv
  have hfixed := (canonical_fixed .standalone hnames).1 _ (.read "UDP://[FE80:0::1%lo]:06363")
    (by rw [hdecode])
  rw [hdecode] at hfixed
  exact ⟨hnames, hdecode, hfixed.2.2.2.1⟩

end NamedData.FaceUri
