import CertExtensions.Proofs.Asn1.BitString

/-!
# Names of bits

A list of names gives each of the first bits of a bit string a name. The names that are found in the bytes of a bit
string are those of the bits that are set (`named_of_mem`), whichever of its bits have a name. They tell which of the
bits with a name are set and nothing else (`setNames_eq_setNames_iff`), so zeros at the end do not count. The contents
that are read are those of lists of bits (`exists_decodeBits_iff`).
-/

namespace CertExtensions.Asn1

variable {names : List String} {bits others : List Bool} {octets content : List UInt8} {name : String}

/-! ### Names of set bits -/

/-- The names of the bits that are set, in the order of the bits. -/
def setNames (names : List String) (bits : List Bool) : List String :=
  ((names.zip bits).filter Prod.snd).map Prod.fst

theorem setNames_sublist (names : List String) (bits : List Bool) : (setNames names bits).Sublist names := by
  induction names generalizing bits with
  | nil => exact List.Sublist.refl []
  | cons name names ih =>
    cases bits with
    | nil => exact List.nil_sublist _
    | cons bit bits =>
      cases bit with
      | false => exact (ih bits).cons name
      | true => exact (ih bits).cons_cons name

private theorem mem_setNames_iff :
    name ∈ setNames names bits ↔ ∃ i : Nat, names[i]? = some name ∧ bits[i]? = some true := by
  constructor
  · intro h
    obtain ⟨⟨name, bit⟩, hmem, rfl⟩ := List.mem_map.mp h
    obtain ⟨hzip, rfl⟩ := List.mem_filter.mp hmem
    obtain ⟨i, hi⟩ := List.mem_iff_getElem?.mp hzip
    exact ⟨i, List.getElem?_zip_eq_some.mp hi⟩
  · rintro ⟨i, hname, hbit⟩
    have hzip : (name, true) ∈ names.zip bits :=
      List.mem_iff_getElem?.mpr ⟨i, List.getElem?_zip_eq_some.mpr ⟨hname, hbit⟩⟩
    exact List.mem_map_of_mem (List.mem_filter.mpr ⟨hzip, rfl⟩)

/-- Where no name is given twice, it is there just if its own bit is set. -/
theorem mem_setNames_iff_of_nodup (hnodup : names.Nodup) {i : Nat} (hname : names[i]? = some name) :
    name ∈ setNames names bits ↔ bits[i]? = some true := by
  rw [mem_setNames_iff]
  constructor
  · rintro ⟨j, hj, hbit⟩
    obtain ⟨hlt, -⟩ := List.getElem?_eq_some_iff.mp hname
    obtain rfl := (List.getElem?_inj hlt hnodup).mp (hname.trans hj.symm)
    exact hbit
  · exact fun hbit => ⟨i, hname, hbit⟩

private theorem setNames_eq_nil (h : ∀ i < names.length, bits[i]? ≠ some true) : setNames names bits = [] := by
  rw [List.eq_nil_iff_forall_not_mem]
  intro name hname
  obtain ⟨i, hi, hbit⟩ := mem_setNames_iff.mp hname
  exact h i (List.getElem?_eq_some_iff.mp hi).1 hbit

private theorem setNames_congr (h : ∀ i < names.length, bits[i]? = some true ↔ others[i]? = some true) :
    setNames names bits = setNames names others := by
  induction names generalizing bits others with
  | nil => rfl
  | cons name names ih =>
    cases bits with
    | nil => exact (setNames_eq_nil fun i hi hbit => nomatch (h i hi).mpr hbit).symm
    | cons bit bits =>
      cases others with
      | nil => exact setNames_eq_nil fun i hi hbit => nomatch (h i hi).mp hbit
      | cons other others =>
        have hfirst := h 0 (Nat.zero_lt_succ _)
        have hrest : setNames names bits = setNames names others :=
          ih fun i hi => h (i + 1) (Nat.succ_lt_succ hi)
        obtain rfl : bit = other := by simpa using hfirst
        cases bit with
        | false => exact hrest
        | true => exact congrArg (name :: ·) hrest

theorem setNames_eq_setNames_iff (hnodup : names.Nodup) :
    setNames names bits = setNames names others ↔
      ∀ i < names.length, bits[i]? = some true ↔ others[i]? = some true := by
  refine ⟨fun h i hi => ?_, setNames_congr⟩
  have hname : names[i]? = some names[i] := List.getElem?_eq_getElem hi
  rw [← mem_setNames_iff_of_nodup hnodup hname, h, mem_setNames_iff_of_nodup hnodup hname]

theorem getElem?_append_zeros (bits : List Bool) (n i : Nat) :
    (bits ++ List.replicate n false)[i]? = some true ↔ bits[i]? = some true := by
  by_cases hi : i < bits.length
  · rw [List.getElem?_append_left hi]
  · rw [List.getElem?_append_right (by omega), List.getElem?_eq_none (l := bits) (by omega), List.getElem?_replicate]
    split <;> simp

/-! ### Bits in bytes -/

private theorem getElem?_flatMap_octetBits (octets : List UInt8) (i : Nat) :
    (octets.flatMap octetBits)[i]? = octets[i / 8]?.map fun octet => octet.toNat.testBit (7 - i % 8) := by
  induction octets generalizing i with
  | nil => simp
  | cons octet octets ih =>
    rw [List.flatMap_cons]
    by_cases hi : i < 8
    · have hdiv : i / 8 = 0 := by omega
      have hmod : i % 8 = i := by omega
      rw [List.getElem?_append_left (by rwa [length_octetBits]), hdiv, hmod]
      simp [octetBits, hi]
    · have hdiv : i / 8 = (i - 8) / 8 + 1 := by omega
      have hmod : i % 8 = (i - 8) % 8 := by omega
      rw [List.getElem?_append_right (by rw [length_octetBits]; omega), length_octetBits, ih, hdiv, hmod,
        List.getElem?_cons_succ]

private theorem Bits.isSet_iff (bits : Bits) (i : Nat) :
    bits.isSet i ↔ (bits.octets.flatMap octetBits)[i]? = some true := by
  rw [isSet, getElem?_flatMap_octetBits]
  cases bits.octets[i / 8]? <;> simp

/-- The names that are found in the bytes of bits are those of the bits that are set. -/
private theorem Bits.named_eq_setNames
    (h : octets.flatMap octetBits = bits ++ List.replicate (unusedBits bits.length) false) (names : List String) :
    Bits.named names ⟨octets, bits.length⟩ = setNames names bits := by
  have hset : ∀ i, Bits.isSet ⟨octets, bits.length⟩ i ↔ bits[i]? = some true := by
    intro i
    rw [Bits.isSet_iff, h, getElem?_append_zeros]
  have hzip : names.zip bits =
      (names.take bits.length).zipIdx.map fun entry => (entry.1, Bits.isSet ⟨octets, bits.length⟩ entry.2) := by
    refine List.ext_getElem (by simp [Nat.min_comm]) fun i hi _ => ?_
    rw [List.length_zip] at hi
    have hlt : i < bits.length := by omega
    have hbit : bits[i] = Bits.isSet ⟨octets, bits.length⟩ i := by
      rw [Bool.eq_iff_iff, hset, List.getElem?_eq_getElem hlt, Option.some_inj]
    simp [hbit]
  rw [setNames, hzip, Bits.named]
  generalize (names.take bits.length).zipIdx = entries
  induction entries with
  | nil => rfl
  | cons entry entries ih =>
    by_cases hbit : Bits.isSet ⟨octets, bits.length⟩ entry.2 = true
    · simp [hbit, ih]
    · simp [hbit, ih]

/-! ### Contents -/

theorem named_of_mem (h : content ∈ bitContents bits) :
    ∃ found, decodeBits content = .ok found ∧ ∀ names, found.named names = setNames names bits := by
  obtain ⟨octets, rfl, hbits⟩ := h
  exact ⟨_, decodeBits_octets hbits, Bits.named_eq_setNames hbits⟩

/-- Where a byte is a multiple of a power of two, its last bits are zeros. -/
private theorem drop_octetBits {octet : UInt8} {unused : Nat} (hunused : unused < 8)
    (h : octet.toNat % 2 ^ unused = 0) :
    (octetBits octet).drop (8 - unused) = List.replicate unused false := by
  have hall : ∀ n : Fin 256, ∀ unused : Fin 8, n.val % 2 ^ unused.val = 0 →
      ((List.range 8).map fun i => n.val.testBit (7 - i)).drop (8 - unused.val) =
        List.replicate unused.val false := by decide +kernel
  exact hall ⟨octet.toNat, octet.toNat_lt⟩ ⟨unused, hunused⟩ h

/-- What stands in front of zeros at the end of the last byte. -/
private theorem exists_bits_of_mod {unused : Nat} (hunused : unused < 8) (hne : unused ≠ 0 → octets ≠ [])
    (h : (octets.getLastD 0).toNat % 2 ^ unused = 0) :
    ∃ bits, octets.flatMap octetBits = bits ++ List.replicate unused false ∧ unusedBits bits.length = unused := by
  cases octets using List.reverseRecOn with
  | nil =>
    obtain rfl : unused = 0 := by_contra fun hzero => hne hzero rfl
    exact ⟨[], rfl, rfl⟩
  | append_singleton octets last =>
    rw [List.getLastD_concat] at h
    refine ⟨octets.flatMap octetBits ++ (octetBits last).take (8 - unused), ?_, ?_⟩
    · rw [List.flatMap_append, List.flatMap_singleton, List.append_assoc, ← drop_octetBits hunused h,
        List.take_append_drop]
    · rw [List.length_append, length_flatMap_octetBits, List.length_take, length_octetBits, unusedBits]
      omega

/-- The contents that are read as bit strings are those of bits. -/
theorem exists_decodeBits_iff : (∃ found, decodeBits content = .ok found) ↔ ∃ bits, content ∈ bitContents bits := by
  constructor
  · rintro ⟨found, hfound⟩
    cases content with
    | nil => cases hfound
    | cons unused octets =>
      rw [decodeBits] at hfound
      split at hfound
      · cases hfound
      · next hshape =>
        rw [not_or, not_and, UInt8.not_lt] at hshape
        split at hfound
        · cases hfound
        · next hzeros =>
          have hle : unused.toNat ≤ 7 := UInt8.le_iff_toNat_le.mp hshape.1
          have hne : unused.toNat ≠ 0 → octets ≠ [] := fun hzero => hshape.2 fun heq => hzero (by rw [heq]; rfl)
          obtain ⟨bits, hbits, hunused⟩ := exists_bits_of_mod (by omega) hne (not_not.mp hzeros)
          refine ⟨bits, octets, ?_, ?_⟩
          · rw [hunused, UInt8.ofNat_toNat]
          · rw [hunused, hbits]
  · rintro ⟨bits, hbits⟩
    obtain ⟨found, hfound, -⟩ := named_of_mem hbits
    exact ⟨found, hfound⟩

end CertExtensions.Asn1
