import CertExtensions.Proofs.Asn1.Integer
import CertExtensions.Proofs.ExtensionSet.LastUpdate

/-!
# Serial numbers of issuers

The serial number of an issuer is kept as the content of an integer, which can be negative, and goes into an authority
key identifier as the unsigned number that its bytes form (`signedValue_positiveContent`). The two are the same for a
content without its top bit, and otherwise differ by a zero in front (`positiveContent_of_checkInteger`). So an update
names the issuer's serial number unless that is negative (`serial_of_update`), which it is not where it has been made of
a natural number (`serial_ofNat_of_update`), in eight bytes for a word (`SerialNumber.octets_ofNat_of_lt`).
-/

namespace CertExtensions

open Asn1 BigEndian

/-! ### Signed and unsigned contents -/

namespace BigEndian

private theorem value_dropWhile_zero (bytes : List UInt8) : value (bytes.dropWhile (· == 0)) = value bytes := by
  induction bytes with
  | nil => rfl
  | cons b rest ih =>
    by_cases hb : b = 0
    · subst hb
      simpa [value_zero_cons] using ih
    · simp [hb]

end BigEndian

/-- Bytes are written as the number that they form without a sign. -/
theorem signedValue_positiveContent (octets : List UInt8) : signedValue (positiveContent octets) = value octets := by
  have hvalue := value_dropWhile_zero octets
  unfold positiveContent
  cases hdigits : octets.dropWhile (· == 0) with
  | nil =>
    rw [hdigits] at hvalue
    rw [← hvalue]
    rfl
  | cons b rest =>
    rw [hdigits] at hvalue
    by_cases hb : b < 128
    · simp only [hb, ↓reduceIte]
      rw [signedValue_of_lt hb, hvalue]
    · simp only [hb, ↓reduceIte]
      rw [signedValue_of_lt (by decide), value_zero_cons, hvalue]

/-- What is the content of an integer is written as it stands, unless the integer is negative. -/
theorem positiveContent_of_checkInteger {content : List UInt8} (h : checkInteger content = .ok ()) :
    positiveContent content = if 0 ≤ signedValue content then content else 0 :: content := by
  match content with
  | [] => cases h
  | b :: rest =>
    simp only [signedValue_nonneg_iff]
    by_cases hb : b = 0
    · subst hb
      -- a zero in front is there for the top bit of the next byte, so it is dropped and written again
      match rest with
      | [] => rfl
      | c :: rest =>
        have hc : ¬ c < 128 := by
          intro hc
          simp [checkInteger, paddedInteger, hc] at h
        have hzero : (c == 0) = false := by
          rw [beq_eq_false_iff_ne]
          rintro rfl
          exact hc (by decide)
        simp [positiveContent, hzero, hc]
    · simp [positiveContent, hb]

/-! ### Updates -/

namespace ExtensionSet

variable {set updated : ExtensionSet} {subject : PublicKey} {issuer : Issuer}

/-- The authority key identifier that takes the place of one with the given value can be read. -/
private theorem value?_of_update (h : set.update subject issuer = .ok updated) (hsize : updated.CountableAuthority)
    {value : List UInt8} (hvalue : set.value? "2.5.29.35" = some value) {old : AuthorityKeyIdentifier}
    (hold : Extension.readAuthorityKeyIdentifier value = .ok old) :
    ∃ renewed, updated.value? "2.5.29.35" = some renewed ∧
      Extension.readAuthorityKeyIdentifier renewed = .ok (issuer.successor old) := by
  rw [value?_eq, Option.map_eq_some_iff] at hvalue
  obtain ⟨extension, hfind, rfl⟩ := hvalue
  obtain ⟨old', renewed, hold', hupdated, hread⟩ := readAuthorityKeyIdentifier_of_update h hsize hfind
  rw [hold] at hold'
  cases hold'
  refine ⟨renewed, ?_, hread⟩
  rw [value?_eq]
  exact congrArg (Option.map (·.value)) hupdated

/-- Where an update names the issuer's certificate, the serial number is the issuer's if that is not negative. A
negative one gets a zero in front: its bytes are taken without a sign. -/
theorem serial_of_update (h : set.update subject issuer = .ok updated) (hsize : updated.CountableAuthority)
    (hserial : checkInteger issuer.serial.octets = .ok ()) {value : List UInt8}
    (hvalue : set.value? "2.5.29.35" = some value) {old : AuthorityKeyIdentifier}
    (hold : Extension.readAuthorityKeyIdentifier value = .ok old)
    (hnames : old.keyIdentifier? = none ∨ old.serial?.isSome) :
    ∃ renewed new serial, updated.value? "2.5.29.35" = some renewed ∧
      Extension.readAuthorityKeyIdentifier renewed = .ok new ∧ new.serial? = some serial ∧
      (serial = issuer.serial.octets ↔ 0 ≤ signedValue issuer.serial.octets) ∧
      (signedValue issuer.serial.octets < 0 → serial = 0 :: issuer.serial.octets) ∧
      signedValue serial = BigEndian.value issuer.serial.octets := by
  obtain ⟨renewed, hrenewed, hread⟩ := value?_of_update h hsize hvalue hold
  have hpresent : old.namesCertificate = true := by
    rw [AuthorityKeyIdentifier.namesCertificate, Bool.or_eq_true, Option.isNone_iff_eq_none]
    exact hnames
  have hwritten := positiveContent_of_checkInteger hserial
  refine ⟨renewed, _, positiveContent issuer.serial.octets, hrenewed, hread, ?_, ?_, ?_,
    signedValue_positiveContent issuer.serial.octets⟩
  · simp [Issuer.successor, hpresent]
  · by_cases hsign : 0 ≤ signedValue issuer.serial.octets
    · simp [hwritten, hsign]
    · simp [hwritten, hsign]
  · intro hsign
    rw [hwritten, if_neg (by omega)]

/-- The largest serial number of two bytes: its content begins with a zero. -/
theorem serial_of_update_largest :
    let issuer := { sampleIssuer with serial := ⟨[0, 0xFF, 0xFF]⟩ }
    let updated := (sampleSet.update ⟨[4]⟩ issuer).toOption.getD ∅
    sampleSet.update ⟨[4]⟩ issuer = .ok updated ∧ updated.CountableAuthority ∧
      checkInteger issuer.serial.octets = .ok () ∧
      ∃ renewed new, updated.value? "2.5.29.35" = some renewed ∧
        Extension.readAuthorityKeyIdentifier renewed = .ok new ∧ new.serial? = some [0, 0xFF, 0xFF] := by
  intro issuer updated
  have h : sampleSet.update ⟨[4]⟩ issuer = .ok updated := rfl
  have hsize : updated.CountableAuthority := by decide
  have hserial : checkInteger issuer.serial.octets = .ok () := rfl
  have hvalue : sampleSet.value? "2.5.29.35" = some [4, 8, 0x30, 6, 0x80, 1, 7, 0x82, 1, 9] := by decide
  have hold : Extension.readAuthorityKeyIdentifier [4, 8, 0x30, 6, 0x80, 1, 7, 0x82, 1, 9] =
      .ok ⟨some [7], none, some [9]⟩ := rfl
  obtain ⟨renewed, new, serial, hrenewed, hnew, hfield, hsame, -, -⟩ :=
    serial_of_update h hsize hserial hvalue hold (.inr rfl)
  refine ⟨h, hsize, hserial, renewed, new, hrenewed, hnew, ?_⟩
  rw [hfield, hsame.mpr (by decide)]

/-- The serial number -128 becomes 128. -/
theorem serial_of_update_negative :
    let issuer := { sampleIssuer with serial := ⟨[0x80]⟩ }
    checkInteger issuer.serial.octets = .ok () ∧
      ∃ updated renewed new, sampleSet.update ⟨[4]⟩ issuer = .ok updated ∧
        updated.value? "2.5.29.35" = some renewed ∧
        Extension.readAuthorityKeyIdentifier renewed = .ok new ∧ new.serial? = some [0, 0x80] ∧
        new.serial? ≠ some issuer.serial.octets := by
  intro issuer
  let updated := (sampleSet.update ⟨[4]⟩ issuer).toOption.getD ∅
  let renewed := (updated.value? "2.5.29.35").getD []
  let new := (Extension.readAuthorityKeyIdentifier renewed).toOption.getD ⟨none, none, none⟩
  refine ⟨rfl, updated, renewed, new, ?_, ?_, ?_, ?_, ?_⟩
  · rfl
  · rfl
  · decide +kernel
  · decide
  · decide

end ExtensionSet

/-! ### Natural numbers -/

namespace SerialNumber

private theorem octets_ofNat_mem (n : Nat) : (ofNat n).octets ∈ integerContents n := by
  rw [mem_integerContents_iff]
  refine ⟨checkInteger_positiveContent _, ?_⟩
  rw [ofNat, signedValue_positiveContent, value_shortest]

private theorem mem_integerContents_iff_eq (n : Nat) {content : List UInt8} :
    content ∈ integerContents n ↔ content = (ofNat n).octets := by
  constructor
  · exact fun h => integerContents_unique h (octets_ofNat_mem n)
  · rintro rfl
    exact octets_ofNat_mem n

/-- The serial number of a word is what is left of its eight bytes without the zeros in front. -/
theorem octets_ofNat_of_lt {n : Nat} (h : n < wordLimit) : (ofNat n).octets = positiveContent (fixed 8 n) := by
  symm
  rw [← mem_integerContents_iff_eq, mem_integerContents_iff]
  refine ⟨checkInteger_positiveContent _, ?_⟩
  rw [signedValue_positiveContent, value_fixed_of_lt h]

private theorem ofNat_inj {m n : Nat} : ofNat m = ofNat n ↔ m = n := by
  constructor
  · intro h
    have hm := (octets_ofNat_mem m).2.1
    rw [h, (octets_ofNat_mem n).2.1] at hm
    omega
  · exact congrArg ofNat

/-- The top bit is clear, and a zero stands in front only where it is all or where the next byte has its top bit set. -/
private theorem exists_octets_ofNat (n : Nat) :
    ∃ first rest, (ofNat n).octets = first :: rest ∧ first < 128 ∧
      (first = 0 → rest = [] ∨ ∃ second more, rest = second :: more ∧ 128 ≤ second) := by
  obtain ⟨hne, hvalue, -⟩ := octets_ofNat_mem n
  have hpadded := not_paddedInteger_of_mem (octets_ofNat_mem n)
  obtain ⟨first, rest, hoctets⟩ := List.exists_cons_of_ne_nil hne
  rw [hoctets] at hvalue hpadded
  have hfirst := (signedValue_nonneg_iff first rest).mp (by omega)
  refine ⟨first, rest, hoctets, hfirst, ?_⟩
  rintro rfl
  match rest with
  | [] => exact .inl rfl
  | second :: more =>
    refine .inr ⟨second, more, rfl, UInt8.not_lt.mp fun hsecond => hpadded ?_⟩
    simp [paddedInteger, hsecond]

/-- What is written for the serial number of a natural number is the serial number itself. -/
private theorem positiveContent_octets_ofNat (n : Nat) : positiveContent (ofNat n).octets = (ofNat n).octets := by
  obtain ⟨hcheck, hvalue⟩ := mem_integerContents_iff.mp (octets_ofNat_mem n)
  rw [positiveContent_of_checkInteger hcheck, if_pos (by omega)]

end SerialNumber

namespace ExtensionSet

variable {set updated : ExtensionSet} {subject : PublicKey} {issuer : Issuer}

/-- An authority key identifier in an updated set is the successor of one that was there. -/
private theorem exists_successor_of_update (h : set.update subject issuer = .ok updated)
    (hsize : updated.CountableAuthority) {value : List UInt8} (hvalue : updated.value? "2.5.29.35" = some value) :
    ∃ old, Extension.readAuthorityKeyIdentifier value = .ok (issuer.successor old) := by
  cases hfind : set.find? ExtensionType.authorityKeyIdentifier.identifier with
  | none =>
    have hnone := find?_update_eq_none h hfind
    rw [value?_eq, show updated.find? "2.5.29.35" = none from hnone] at hvalue
    cases hvalue
  | some extension =>
    obtain ⟨old, renewed, -, hupdated, hread⟩ := readAuthorityKeyIdentifier_of_update h hsize hfind
    rw [value?_eq, show updated.find? "2.5.29.35" = _ from hupdated] at hvalue
    cases hvalue
    exact ⟨old, hread⟩

/-- The serial number of a natural number is its one shortest two's complement, different for different numbers. It is
what an update with an issuer of this serial number writes: the authority key identifier can be read, and has this
serial number where it names a certificate. -/
theorem serial_ofNat_of_update (n : Nat) :
    (∀ content, content ∈ integerContents n ↔ content = (SerialNumber.ofNat n).octets) ∧
      (∃ first rest, (SerialNumber.ofNat n).octets = first :: rest ∧ first < 128 ∧
        (first = 0 → rest = [] ∨ ∃ second more, rest = second :: more ∧ 128 ≤ second)) ∧
      (∀ m, SerialNumber.ofNat m = SerialNumber.ofNat n ↔ m = n) ∧
      ∀ (set updated : ExtensionSet) (subject : PublicKey) (issuer : Issuer), issuer.serial = .ofNat n →
        set.update subject issuer = .ok updated → updated.CountableAuthority →
        ∀ value, updated.value? "2.5.29.35" = some value →
          ∃ new, Extension.readAuthorityKeyIdentifier value = .ok new ∧
            (new.serial?.isSome ↔ new.issuer?.isSome) ∧
            (new.serial?.isSome → new.serial? = some (SerialNumber.ofNat n).octets) := by
  refine ⟨fun content => SerialNumber.mem_integerContents_iff_eq n, SerialNumber.exists_octets_ofNat n,
    fun m => SerialNumber.ofNat_inj, ?_⟩
  intro set updated subject issuer hserial h hsize value hvalue
  obtain ⟨old, hread⟩ := exists_successor_of_update h hsize hvalue
  refine ⟨_, hread, ?_, ?_⟩
  · cases hnames : old.namesCertificate <;> simp [Issuer.successor, hnames]
  · intro hpresent
    cases hnames : old.namesCertificate with
    | false => simp [Issuer.successor, hnames] at hpresent
    | true => simp [Issuer.successor, hnames, hserial, SerialNumber.positiveContent_octets_ofNat]

/-- The largest serial number of one byte has its top bit set, so that two bytes are written. -/
theorem serial_ofNat_of_update_topBit :
    let issuer := { sampleIssuer with serial := .ofNat 255 }
    let updated := (sampleSet.update ⟨[4]⟩ issuer).toOption.getD ∅
    sampleSet.update ⟨[4]⟩ issuer = .ok updated ∧ updated.CountableAuthority ∧
      ∃ value new, updated.value? "2.5.29.35" = some value ∧
        Extension.readAuthorityKeyIdentifier value = .ok new ∧ new.serial? = some [0, 255] := by
  intro issuer updated
  let value := (updated.value? "2.5.29.35").getD []
  have h : sampleSet.update ⟨[4]⟩ issuer = .ok updated := rfl
  have hsize : updated.CountableAuthority := by decide
  have hvalue : updated.value? "2.5.29.35" = some value := rfl
  have hpresent : ((Extension.readAuthorityKeyIdentifier value).toOption.bind (·.serial?)).isSome := by decide
  obtain ⟨-, -, -, hupdate⟩ := serial_ofNat_of_update 255
  obtain ⟨new, hread, -, hserial⟩ := hupdate sampleSet updated ⟨[4]⟩ issuer rfl h hsize value hvalue
  rw [hread] at hpresent
  exact ⟨h, hsize, value, new, hvalue, hread, hserial hpresent⟩

end ExtensionSet

end CertExtensions
