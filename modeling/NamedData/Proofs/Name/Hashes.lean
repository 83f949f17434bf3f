import NamedData.Proofs.Name.Prefixes
import NamedData.Proofs.Name.Remainder

/-!
# The hashes of a name and its prefixes

The hash of a name is the check value of its components' wire forms, whether these are taken at once
or one after the other, and one pass over a name gives the hashes of all its prefixes.
-/

namespace NamedData.Name

variable {n : Name} {k : Nat}

theorem hash_eq_foldl (n : Name) :
    n.hash = (n.components.foldl (fun c component => c.push component.encode)
      Crc32.initial).value.toUInt64 := by
  simp only [hash, Crc32.ofBytes, encodeComponents, Crc32.push, List.foldl_flatMap]

theorem hash_is_check (n : Name) :
    ∃ v : UInt32, n.hash = v.toUInt64 ∧ ∀ w, Crc32.IsCheckOf w n.encodeComponents ↔ w = v :=
  ⟨Crc32.ofBytes n.encodeComponents, rfl, fun _ => Crc32.isCheckOf_iff⟩

theorem length_prefixHashes (n : Name) : n.prefixHashes.length = n.length + 1 := by
  rw [prefixHashes, List.length_map, length_registers, length]

theorem getElem?_prefixHashes (hk : k ≤ n.length) :
    n.prefixHashes[k]? = some (n.take k).hash := by
  rw [prefixHashes_eq, List.getElem?_map, List.getElem?_range (Nat.lt_succ_of_le hk)]
  rfl

theorem take_length (n : Name) : n.take n.length = n := by
  rw [take, length, List.take_length]

theorem getLast?_prefixHashes (n : Name) : n.prefixHashes.getLast? = some n.hash := by
  rw [List.getLast?_eq_getElem?, length_prefixHashes, Nat.add_sub_cancel,
    getElem?_prefixHashes (Nat.le_refl _), take_length]

theorem take_append_of_le (hk : k ≤ n.length) (more : Name) : (n ++ more).take k = n.take k :=
  congrArg Name.mk (List.take_append_of_le_length hk)

/-- Components that come later leave the hashes of the prefixes before them. -/
theorem prefixHashes_isPrefix_append (n more : Name) :
    n.prefixHashes <+: (n ++ more).prefixHashes := by
  have hlength : (n ++ more).length = n.length + more.length := List.length_append
  rw [List.prefix_iff_getElem?]
  intro k hk
  rw [length_prefixHashes] at hk
  have hle : k ≤ n.length := Nat.le_of_lt_succ hk
  rw [← List.getElem?_eq_getElem, getElem?_prefixHashes hle,
    getElem?_prefixHashes (hle.trans (by omega)), take_append_of_le hle]

/-- One pass over a name gives a hash for each count of components that a prefix can have, which is
the hash of the prefix; the last is that of the whole name, and components that come later leave all
of them. A hash is the check value that IEEE 802.3 defines of the components' wire forms one behind
the other, and it comes also from a register that the wire forms run through one by one. -/
theorem prefixHashes_are_hashes_of_prefixes (n : Name) :
    n.prefixHashes.length = n.length + 1
      ∧ (∀ k, k ≤ n.length → n.prefixHashes[k]? = some (n.take k).hash)
      ∧ n.prefixHashes.getLast? = some n.hash
      ∧ (∀ more : Name, n.prefixHashes <+: (n ++ more).prefixHashes)
      ∧ (∃ v : UInt32, n.hash = v.toUInt64
        ∧ ∀ w, Crc32.IsCheckOf w n.encodeComponents ↔ w = v)
      ∧ n.hash = (n.components.foldl (fun c component => c.push component.encode)
        Crc32.initial).value.toUInt64 :=
  ⟨length_prefixHashes n, fun _ hk => getElem?_prefixHashes hk, getLast?_prefixHashes n,
    prefixHashes_isPrefix_append n, hash_is_check n, hash_eq_foldl n⟩

/-- A component without its type, and one behind it. -/
theorem prefixHashes_are_hashes_of_prefixes_for_one :
    let n : Name := ⟨[.generic [97], ⟨300, [1, 2]⟩]⟩
    1 ≤ n.length ∧ n.prefixHashes[1]? = some 0xD2FCE825
      ∧ (n.take 1).prefixHashes <+: (n.take 1 ++ ⟨[⟨300, [1, 2]⟩]⟩).prefixHashes
      ∧ ∀ w, Crc32.IsCheckOf w [8, 1, 97] ↔ w = 0xD2FCE825 := by
  intro n
  have hk : 1 ≤ n.length := by decide
  have hhash : (n.take 1).hash = (0xD2FCE825 : UInt32).toUInt64 := by decide +kernel
  obtain ⟨-, hprefixes, -⟩ := prefixHashes_are_hashes_of_prefixes n
  obtain ⟨-, -, -, hkept, ⟨v, hv, hcheck⟩, -⟩ := prefixHashes_are_hashes_of_prefixes (n.take 1)
  have hvalue : v = 0xD2FCE825 := UInt32.toUInt64_inj.mp (hv.symm.trans hhash)
  rw [hvalue] at hcheck
  exact ⟨hk, (hprefixes 1 hk).trans (congrArg some hhash), hkept _, hcheck⟩

end NamedData.Name
