import NamedData.Proofs.FaceUri.Parts

/-!
# Canonical URIs

What the canonical URIs of a machine are, kind by kind. Whatever is read or made is one of them if
it is marked as canonical, and canonization leaves each of them as it is.
-/

namespace NamedData.FaceUri

/-! ## What canonical URIs are -/

/-- The schemes of the canonical URIs of an address. -/
inductive AddressScheme (ip : Ip) : UriKind → List Char → Prop where
  | udp : AddressScheme ip .udp (familyScheme "udp" ip)
  | tcp : AddressScheme ip .tcp (familyScheme "tcp" ip)
  | ws : AddressScheme ip .webSocket "ws".toList
  | wss : AddressScheme ip .webSocket "wss".toList

/-- The canonical URIs of a machine, kind by kind. -/
inductive Canonical (env : Environment) : FaceUri → Prop where
  | address {ip : Ip} {kind : UriKind} {scheme : List Char} {zone : Option (List Char)}
      {port : UInt16} (hscheme : AddressScheme ip kind scheme)
      (hzone : ∀ z ∈ zone, (zoneIndex? env z).isSome) (hport : port ≠ 0) :
      Canonical env ⟨kind, scheme, addressPath ip zone, port, true⟩
  | unix {path : List Char} (hpath : path ≠ [])
      (hstatus : env.pathStatus path = .other ∨ env.pathStatus path = .absent) :
      Canonical env ⟨.unix, "unix".toList, path, 0, true⟩
  | dev {path : List Char} (hpath : path ≠ [] ∧ path.all isInterfaceChar) :
      Canonical env ⟨.dev, "dev".toList, path, 0, true⟩
  | ethernet {address : Bytes} (haddress : address.length = 6) :
      Canonical env ⟨.ethernet, "ether".toList, hardwarePath address, 0, true⟩
  | fd {path : List Char} (hpath : (Numeral.decimal32? path).isSome) :
      Canonical env ⟨.fd, "fd".toList, path, 0, true⟩
  | null : Canonical env ⟨.null, "null".toList, [], 0, true⟩
  | internal : Canonical env ⟨.internal, "internal".toList, [], 0, true⟩

/-- URIs as they come out of a text or an address, before they are canonized. -/
inductive Formed : FaceUri → Prop where
  | udp {scheme path : List Char} {port : UInt16} : Formed ⟨.udp, scheme, path, port, false⟩
  | tcp {scheme path : List Char} {port : UInt16} : Formed ⟨.tcp, scheme, path, port, false⟩
  | ws {path : List Char} {port : UInt16} : Formed ⟨.webSocket, "ws".toList, path, port, false⟩
  | wss {path : List Char} {port : UInt16} : Formed ⟨.webSocket, "wss".toList, path, port, false⟩
  | unix {path : List Char} : Formed (raw .unix "unix" path 0)
  | dev {path : List Char} : Formed (raw .dev "dev" path 0)
  | ethernet {path : List Char} : Formed (raw .ethernet "ether" path 0)
  | fd {path : List Char} : Formed (raw .fd "fd" path 0)
  | null : Formed (raw .null "null" [] 0)
  | internal : Formed (raw .internal "internal" [] 0)
  | unknown : Formed unknown

/-- The URIs that are read from a text or made for one end of a face. -/
inductive Made (env : Environment) : FaceUri → Prop where
  | read (text : String) : Made env (decode env text)
  | udp (addr : SocketAddr) : Made env (FaceUri.udp env addr)
  | tcp (addr : SocketAddr) : Made env (FaceUri.tcp env addr)
  | webSocket (addr : SocketAddr) (secure : Bool) : Made env (FaceUri.webSocket env addr secure)
  | unix (path : List Char) : Made env (FaceUri.unix env path)
  | dev (interface : List Char) : Made env (FaceUri.dev env interface)
  | ethernet (address : Bytes) (haddress : address.length = 6) :
      Made env (FaceUri.ethernet env address)
  | fd (descriptor : Int32) : Made env (FaceUri.fd env descriptor)
  | null : Made env FaceUri.null
  | internal : Made env FaceUri.internal

variable {env : Environment} {u v : FaceUri} {ip : Ip} {zone : Option (List Char)}

/-! ## Hosts -/

theorem resolveHost_toChars {wantV4 wantV6 : Bool} (h4 : wantV4 = true → ip.isV4 = true)
    (h6 : wantV6 = true → ip.isV6 = true) :
    resolveHost env ip.toChars wantV4 wantV6 = some ip := by
  rw [resolveHost, Ip.parse?_toChars]
  cases ip <;> cases wantV4 <;> cases wantV6 <;> simp_all [Ip.isV4, Ip.isV6]

/-- The address of a path is resolved to itself, and its zone is kept. -/
theorem resolvePath_of_path (u : FaceUri) {wantV4 wantV6 : Bool}
    (hpath : u.path = addressPath ip zone) (hzone : ∀ z ∈ zone, (zoneIndex? env z).isSome)
    (h4 : wantV4 = true → ip.isV4 = true) (h6 : wantV6 = true → ip.isV6 = true) :
    ∃ zoneText, resolvePath env u wantV4 wantV6 = some (ip, zoneText)
      ∧ ip.toChars ++ zoneText = addressPath ip zone := by
  rw [resolvePath, zone?_of_path hpath, host_of_path hpath, resolveHost_toChars h4 h6]
  cases zone with
  | none => exact ⟨[], rfl, List.append_nil _⟩
  | some z =>
      have hindex : (zoneIndex? env z).isNone = false := by
        rw [Option.isNone_eq_false_iff]
        exact hzone z rfl
      refine ⟨'%' :: z, ?_, rfl⟩
      simp [hindex]

theorem exists_of_resolvePath {wantV4 wantV6 : Bool} {zoneText : List Char}
    (h : resolvePath env u wantV4 wantV6 = some (ip, zoneText)) :
    ∃ zone, (∀ z ∈ zone, (zoneIndex? env z).isSome)
      ∧ ip.toChars ++ zoneText = addressPath ip zone := by
  rw [resolvePath] at h
  cases hzone : u.zone? with
  | none =>
      simp only [hzone, Option.map_eq_some_iff, Prod.mk.injEq] at h
      obtain ⟨ip', -, rfl, rfl⟩ := h
      exact ⟨none, by simp, List.append_nil _⟩
  | some z =>
      simp only [hzone, Option.ite_none_left_eq_some, Option.map_eq_some_iff, Prod.mk.injEq] at h
      obtain ⟨hindex, ip', -, rfl, rfl⟩ := h
      refine ⟨some z, ?_, rfl⟩
      rintro _ ⟨⟩
      exact Option.isSome_iff_ne_none.mpr fun hnone => hindex (Option.isNone_iff_eq_none.mpr hnone)

/-! ## Edits -/

namespace Edit

variable {α β : Type}

theorem run_demand (condition : Prop) [Decidable condition] (u : FaceUri) :
    demand condition u
      = if condition then .ok () u else .error (.nonCanonicalUri u.toText) u := by
  unfold demand
  split <;> rfl

theorem run_require (o : Option α) (u : FaceUri) :
    require o u = match o with
      | some a => .ok a u
      | none => .error (.nonCanonicalUri u.toText) u := by
  cases o <;> rfl

theorem run_bind (m : Edit α) (f : α → Edit β) (u : FaceUri) :
    (m >>= f) u = match m u with
      | .ok a v => f a v
      | .error e v => .error e v := by
  change EStateM.bind m f u = _
  unfold EStateM.bind
  cases m u <;> rfl

theorem run_get (u : FaceUri) : (get : Edit FaceUri) u = .ok u u := rfl

theorem run_modify (f : FaceUri → FaceUri) (u : FaceUri) :
    (modify f : Edit PUnit) u = .ok ⟨⟩ (f u) := rfl

end Edit

/-! ## Canonization -/

/-- The canonical URI of the same address, if there is one on this machine. -/
def canonical? (env : Environment) (u : FaceUri) : Option FaceUri :=
  match u.kind with
  | .udp | .tcp =>
    let base := if u.kind = .udp then "udp" else "tcp"
    let family := u.scheme.getLast?
    match resolvePath env u (family == some '4') (family == some '6') with
    | none => none
    | some (ip, zone) =>
      if u.port = 0 then none
      else some { u with
        scheme := familyScheme base ip, path := ip.toChars ++ zone, canonical := true }
  | .webSocket =>
    match resolvePath env u false false with
    | none => none
    | some (ip, zone) =>
      if u.port = 0 then none
      else some { u with path := ip.toChars ++ zone, canonical := true }
  | .unix =>
    if u.path = [] ∨ u.port ≠ 0 then none
    else match env.pathStatus u.path with
      | .directory | .unreadable => none
      | .other | .absent => some { u with canonical := true }
  | .dev =>
    if u.path ≠ [] ∧ u.path.all isInterfaceChar then some { u with canonical := true } else none
  | .ethernet =>
    (hardwareAddress? u.path).map fun address =>
      { u with path := hardwarePath address, canonical := true }
  | .fd => if (Numeral.decimal32? u.path).isSome then some { u with canonical := true } else none
  | .null | .internal => some { u with canonical := true }
  | .unknown => none

/-- Why a URI has no canonical form. -/
def refusal (u : FaceUri) : Error :=
  if u.kind = .unknown then .unsupportedScheme (String.ofList u.scheme)
  else .nonCanonicalUri u.toText

/-- Whether a URI is marked as canonical has no part in its canonization. -/
theorem canonical?_mark (u : FaceUri) (marked : Bool) :
    canonical? env { u with canonical := marked } = canonical? env u := by
  obtain ⟨kind, scheme, path, port, canonical⟩ := u
  cases kind <;> rfl

theorem refusal_mark (u : FaceUri) (marked : Bool) :
    refusal { u with canonical := marked } = u.refusal := rfl

open Edit (run_bind run_get run_modify run_demand run_require)

/-- Canonization puts the canonical form in the place of a URI, or takes away its mark. -/
theorem canonizeInPlace_eq (env : Environment) (u : FaceUri) :
    canonizeInPlace env u = match u.canonical? env with
      | some v => .ok () v
      | none => .error u.refusal { u with canonical := false } := by
  rw [← canonical?_mark u false, ← refusal_mark u false, canonizeInPlace, run_bind, run_modify]
  obtain ⟨kind, scheme, path, port, canonical⟩ := u
  dsimp only
  rw [run_bind, canonizeParts, run_bind, run_get]
  cases kind with
  | udp | tcp | webSocket =>
      simp only [run_bind, run_require, run_demand, run_modify, canonical?]
      cases resolvePath env _ _ _ with
      | none => rfl
      | some found =>
          dsimp only
          by_cases hport : port = 0
          · rw [if_neg (not_not_intro hport), if_pos hport]
            rfl
          · rw [if_pos hport, if_neg hport]
  | unix =>
      simp only [run_bind, run_demand, canonical?]
      by_cases hpath : path ≠ [] ∧ port = 0
      · rw [if_pos hpath, if_neg (by tauto)]
        cases env.pathStatus path <;> rfl
      · rw [if_neg hpath, if_pos (by tauto)]
        rfl
  | dev =>
      simp only [run_demand, run_modify, canonical?]
      by_cases hpath : path ≠ [] ∧ path.all isInterfaceChar
      · rw [if_pos hpath, if_pos hpath]
      · rw [if_neg hpath, if_neg hpath]
        rfl
  | ethernet =>
      simp only [run_bind, run_require, run_modify, canonical?]
      cases hardwareAddress? path <;> rfl
  | fd =>
      simp only [run_demand, run_modify, canonical?]
      by_cases hpath : (Numeral.decimal32? path).isSome
      · rw [if_pos hpath, if_pos hpath]
      · rw [if_neg hpath, if_neg hpath]
        rfl
  | null | internal | unknown => rfl

theorem canonize_eq_ok_of_canonical? (h : u.canonical? env = some v) : u.canonize env = .ok v := by
  rw [canonize, canonizeInPlace_eq, h]

theorem canonized_eq_getD (env : Environment) (u : FaceUri) :
    u.canonized env = (u.canonical? env).getD { u with canonical := false } := by
  rw [canonized, canonizeInPlace_eq]
  cases u.canonical? env <;> rfl

theorem AddressScheme.canonical? {kind : UriKind} {scheme : List Char}
    (hscheme : AddressScheme ip kind scheme) (hzone : ∀ z ∈ zone, (zoneIndex? env z).isSome)
    {port : UInt16} (hport : port ≠ 0) :
    FaceUri.canonical? env ⟨kind, scheme, addressPath ip zone, port, true⟩
      = some ⟨kind, scheme, addressPath ip zone, port, true⟩ := by
  have hpath (wantV4 wantV6 : Bool) (h4 : wantV4 = true → ip.isV4 = true)
      (h6 : wantV6 = true → ip.isV6 = true) :=
    resolvePath_of_path ⟨kind, scheme, addressPath ip zone, port, true⟩ rfl hzone h4 h6
  cases hscheme with
  | udp | tcp =>
      obtain ⟨zoneText, hresolve, htext⟩ := hpath ip.isV4 ip.isV6 id id
      simp [FaceUri.canonical?, familyScheme_four, familyScheme_six, hresolve, hport, htext]
  | ws | wss =>
      obtain ⟨zoneText, hresolve, htext⟩ := hpath false false nofun nofun
      simp only [FaceUri.canonical?, hresolve, if_neg hport, htext]

theorem canonical_of_address {wantV4 wantV6 : Bool} {kind : UriKind} {scheme : Ip → List Char}
    {port : UInt16} (hscheme : ∀ ip, AddressScheme ip kind (scheme ip))
    (h : (match resolvePath env u wantV4 wantV6 with
      | none => none
      | some (ip, zoneText) =>
        if port = 0 then none
        else some ⟨kind, scheme ip, ip.toChars ++ zoneText, port, true⟩) = some v) :
    Canonical env v := by
  split at h
  · cases h
  · next ip zoneText hresolve =>
      obtain ⟨hport, hv⟩ := Option.ite_none_left_eq_some.mp h
      obtain ⟨zone, hzone, hpath⟩ := exists_of_resolvePath hresolve
      cases hv
      rw [hpath]
      exact .address (hscheme ip) hzone hport

/-- What is read or made is brought to a canonical URI, or to none. -/
theorem canonical_of_canonical? (hu : Formed u) (h : u.canonical? env = some v) :
    Canonical env v := by
  cases hu with
  | udp => exact canonical_of_address (fun _ => .udp) h
  | tcp => exact canonical_of_address (fun _ => .tcp) h
  | ws => exact canonical_of_address (fun _ => .ws) h
  | wss => exact canonical_of_address (fun _ => .wss) h
  | unix =>
      obtain ⟨hpath, h⟩ := Option.ite_none_left_eq_some.mp h
      split at h
      · cases h
      · cases h
      · next hstatus =>
          cases h
          exact .unix (fun h => hpath (.inl h)) (.inl hstatus)
      · next hstatus =>
          cases h
          exact .unix (fun h => hpath (.inl h)) (.inr hstatus)
  | dev =>
      obtain ⟨hpath, hv⟩ := Option.ite_none_right_eq_some.mp h
      cases hv
      exact .dev hpath
  | ethernet =>
      obtain ⟨address, haddress, rfl⟩ := Option.map_eq_some_iff.mp h
      exact .ethernet (length_of_hardwareAddress? haddress)
  | fd =>
      obtain ⟨hpath, hv⟩ := Option.ite_none_right_eq_some.mp h
      cases hv
      exact .fd hpath
  | null =>
      cases h
      exact .null
  | internal =>
      cases h
      exact .internal
  | unknown => cases h

namespace Canonical

/-- A canonical URI is its own canonical form. -/
theorem canonical?_eq (h : Canonical env u) : u.canonical? env = some u := by
  cases h with
  | address hscheme hzone hport => exact hscheme.canonical? hzone hport
  | unix hpath hstatus =>
      rcases hstatus with hstatus | hstatus <;> simp [canonical?, hpath, hstatus]
  | dev hpath => simp only [canonical?, if_pos hpath]
  | ethernet haddress => simp [canonical?, hardwareAddress?_hardwarePath haddress]
  | fd hpath => simp only [canonical?, if_pos hpath]
  | null | internal => rfl

theorem canonize_eq (h : Canonical env u) : u.canonize env = .ok u :=
  canonize_eq_ok_of_canonical? h.canonical?_eq

theorem canonized_eq (h : Canonical env u) : u.canonized env = u := by
  rw [canonized_eq_getD, h.canonical?_eq, Option.getD_some]

theorem marked (h : Canonical env u) : u.canonical = true ∧ u.kind ≠ .unknown := by
  cases h with
  | address hscheme => cases hscheme <;> exact ⟨rfl, nofun⟩
  | unix | dev | ethernet | fd | null | internal => exact ⟨rfl, nofun⟩

end Canonical

/-! ## Reading and making -/

theorem exists_of_ofHostPort (kind : UriKind) (scheme rest : List Char) :
    ∃ path port, ofHostPort kind scheme rest = ⟨kind, scheme, path, port, false⟩ := by
  simp only [ofHostPort]
  split
  · exact ⟨_, _, rfl⟩
  · exact ⟨_, _, rfl⟩

theorem formed_ofParts (scheme rest : List Char) : Formed (ofParts scheme rest) := by
  have hscheme {name : String} (h : String.ofList scheme = name) : scheme = name.toList := by
    rw [← h, String.toList_ofList]
  obtain ⟨_, _, hudp⟩ := exists_of_ofHostPort .udp scheme rest
  obtain ⟨_, _, htcp⟩ := exists_of_ofHostPort .tcp scheme rest
  obtain ⟨_, _, hwebSocket⟩ := exists_of_ofHostPort .webSocket scheme rest
  unfold ofParts
  split
  case h_1 | h_2 | h_3 => exact hudp ▸ .udp
  case h_4 | h_5 | h_6 => exact htcp ▸ .tcp
  case h_7 h =>
      rw [hwebSocket, hscheme h]
      exact .ws
  case h_8 h =>
      rw [hwebSocket, hscheme h]
      exact .wss
  case h_9 => exact .unix
  case h_10 => exact .dev
  case h_11 => exact .fd
  case h_12 => exact .ethernet
  case h_13 =>
      split
      · exact .null
      · exact .unknown
  case h_14 =>
      split
      · exact .internal
      · exact .unknown
  case h_15 => exact .unknown

/-- Every canonical URI that is read or made is of one of the canonical forms. -/
theorem Made.canonical (h : Made env u) (hmarked : u.canonical = true) : Canonical env u := by
  have hcanonized {v : FaceUri} (hv : Formed v) (hmarked : (v.canonized env).canonical = true) :
      Canonical env (v.canonized env) := by
    rw [canonized_eq_getD] at hmarked ⊢
    cases hform : v.canonical? env with
    | none => simp [hform] at hmarked
    | some w => exact canonical_of_canonical? hv hform
  cases h with
  | read text =>
      rw [decode] at hmarked ⊢
      split at hmarked
      · cases hmarked
      · exact hcanonized (formed_ofParts _ _) hmarked
  | udp addr => exact hcanonized .udp hmarked
  | tcp addr => exact hcanonized .tcp hmarked
  | webSocket addr secure =>
      cases secure
      · exact hcanonized .ws hmarked
      · exact hcanonized .wss hmarked
  | unix path => exact hcanonized .unix hmarked
  | dev interface => exact hcanonized .dev hmarked
  | ethernet address haddress => exact hcanonized .ethernet hmarked
  | fd descriptor => exact hcanonized .fd hmarked
  | null => exact .null
  | internal => exact .internal

end NamedData.FaceUri
