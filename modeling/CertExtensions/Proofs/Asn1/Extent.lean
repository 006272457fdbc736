import CertExtensions.Proofs.Asn1.Element
import CertExtensions.Proofs.Reader

/-!
# Where elements end

The header of an element tells where the element ends, so a reader does not look behind that: bytes at the end are left
over, unless they are needed (`Schema.read_append`). So what is one whole element is neither the start of another one
(`Schema.whole_append_of_ok`) nor complete without its last bytes (`Schema.whole_front`).
-/

namespace CertExtensions.Asn1

open Reader

/-! ### Headers -/

private theorem incremental_readBase128 (acc : Nat) : Incremental Fault.eof (readBase128 acc) := by
  refine .of_append fun bytes more h => ?_
  induction bytes generalizing acc with
  | nil => exact absurd rfl h
  | cons b bytes ih =>
    by_cases hlimit : wordLimit ≤ acc * 128
    · simp [readBase128, hlimit, Except.map]
    · by_cases hlast : b < 128
      · simp [readBase128, hlimit, hlast, Except.map]
      · simp only [List.cons_append, readBase128, hlimit, hlast, ↓reduceIte] at h ⊢
        exact ih _ h

private theorem incremental_readIdentifier : Incremental Fault.eof readIdentifier := by
  refine .of_append fun bytes more h => ?_
  cases bytes with
  | nil => exact absurd rfl h
  | cons b bytes =>
    simp only [readIdentifier, List.cons_append] at h ⊢
    by_cases hlong : b.toNat % 32 = 31
    · simp only [hlong, ↓reduceIte] at h ⊢
      cases hnumber : readBase128 0 bytes with
      | error fault =>
        have hne : fault ≠ .eof := by
          rintro rfl
          simp [hnumber] at h
        simp only [(incremental_readBase128 0).error hnumber hne more]
        rfl
      | ok result =>
        simp only [(incremental_readBase128 0).ok hnumber more]
        by_cases hsmall : result.1 < 31
        · simp [hsmall, Except.map]
        · simp [hsmall, Except.map]
    · simp [hlong, Except.map]

private theorem incremental_readLengthBytes (n acc : Nat) : Incremental Fault.eof (readLengthBytes n acc) := by
  refine .of_append fun bytes more h => ?_
  induction n generalizing acc bytes with
  | zero => rfl
  | succ n ih =>
    cases bytes with
    | nil => exact absurd rfl h
    | cons b bytes =>
      by_cases hlimit : wordLimit ≤ acc * 256
      · simp [readLengthBytes, hlimit] at h
      · simp only [List.cons_append, readLengthBytes, hlimit, ↓reduceIte] at h ⊢
        exact ih _ _ h

private theorem incremental_readLength : Incremental Fault.eof readLength := by
  refine .of_append fun bytes more h => ?_
  cases bytes with
  | nil => exact absurd rfl h
  | cons b bytes =>
    simp only [readLength, List.cons_append] at h ⊢
    by_cases hshort : b < 128
    · simp [hshort, Except.map]
    · by_cases hinvalid : b = 128 ∨ b = 255
      · simp [hshort, hinvalid, Except.map]
      · simp only [hshort, hinvalid, ↓reduceIte] at h ⊢
        cases hlength : readLengthBytes (b.toNat - 128) 0 bytes with
        | error fault =>
          have hne : fault ≠ .eof := by
            rintro rfl
            simp [hlength] at h
          simp only [(incremental_readLengthBytes _ 0).error hlength hne more]
          rfl
        | ok result =>
          simp only [(incremental_readLengthBytes _ 0).ok hlength more]
          rfl

/-! ### Elements -/

/-- Only for want of bytes does a length depend on those at the end. -/
private theorem checkLength_append {whole rest : List UInt8} {length : Length}
    (h : checkLength whole rest length ≠ .error .eof)
    (more : List UInt8) : checkLength (whole ++ more) (rest ++ more) length = checkLength whole rest length := by
  unfold checkLength at h ⊢
  simp only [List.length_append, Nat.add_sub_add_right]
  by_cases hlong : (length.long && length.value < 128) = true
  · simp [hlong]
  · by_cases hlimit : wordLimit ≤ whole.length - rest.length + length.value
    · simp [hlong, hlimit]
    · by_cases hend : rest.length < length.value
      · simp [hlong, hlimit, hend] at h
      · have hmore : ¬rest.length + more.length < length.value := by omega
        simp [hlong, hlimit, hend, hmore]

private theorem length_le_of_checkLength {whole rest : List UInt8} {length : Length} {n : Nat}
    (h : checkLength whole rest length = .ok n) : n ≤ rest.length := by
  unfold checkLength at h
  split at h
  · cases h
  · split at h
    · cases h
    · split at h
      · cases h
      · cases h
        omega

private theorem Element.complete_append {whole rest : List UInt8} {id : Identifier}
    (h : complete whole id rest ≠ .error .eof) (more : List UInt8) :
    complete (whole ++ more) id (rest ++ more) =
      (complete whole id rest).map fun result => (result.1, result.2 ++ more) := by
  unfold complete at h ⊢
  cases hlength : readLength rest with
  | error fault =>
    have hne : fault ≠ .eof := by
      rintro rfl
      simp [hlength] at h
    simp only [incremental_readLength.error hlength hne more]
    rfl
  | ok result =>
    obtain ⟨length, content⟩ := result
    simp only [hlength] at h
    simp only [incremental_readLength.ok hlength more]
    -- the element begins before its length, so both lists grow by the same bytes at the end
    cases hcheck : checkLength whole content length with
    | error fault =>
      have hne : checkLength whole content length ≠ .error .eof := by
        intro heof
        simp [heof] at h
      simp only [checkLength_append hne more, hcheck]
      rfl
    | ok n =>
      have hne : checkLength whole content length ≠ .error .eof := by
        rw [hcheck]
        nofun
      have hn := length_le_of_checkLength hcheck
      simp only [checkLength_append hne more, hcheck, List.drop_append_of_le_length hn,
        List.take_append_of_le_length hn, List.length_append, Nat.add_sub_add_right,
        List.take_append_of_le_length (Nat.sub_le _ _)]
      rfl

/-! ### Places -/

namespace Outcome

variable {α : Type}

def fault? : Outcome α → Option Fault
  | .found _ _ => none
  | .absent fault | .failed fault => some fault

/-- The outcome with more bytes behind what is found. -/
def append (more : List UInt8) : Outcome α → Outcome α
  | .found value rest => .found value (rest ++ more)
  | .absent fault => .absent fault
  | .failed fault => .failed fault

end Outcome

namespace Schema

variable {α : Type} {s : Schema α} {bytes front : List UInt8} {value : α}

theorem fault?_read_of_identifier {fault : Fault} (h : readIdentifier bytes = .error fault) :
    (s.read bytes).fault? = some fault := by
  unfold read
  by_cases hahead : (s.looksAhead || bytes.isEmpty) = true
  · simp [h, hahead, Outcome.fault?]
  · simp [h, hahead, Outcome.fault?]

/-- Bytes at the end are left over, unless they are needed. -/
theorem read_append (h : (s.read bytes).fault? ≠ some .eof) (more : List UInt8) :
    s.read (bytes ++ more) = (s.read bytes).append more := by
  cases hid : readIdentifier bytes with
  | error fault =>
    have hne : fault ≠ .eof := by
      rintro rfl
      exact h (fault?_read_of_identifier hid)
    cases bytes with
    | nil =>
      cases hid
      exact absurd rfl hne
    | cons b bytes =>
      unfold read
      simp only [hid, incremental_readIdentifier.error hid hne more]
      cases s.looksAhead <;> rfl
  | ok result =>
    obtain ⟨id, behind⟩ := result
    unfold read at h ⊢
    simp only [hid] at h
    simp only [hid, incremental_readIdentifier.ok hid more]
    cases hs : s.decode? id.tag with
    | none => rfl
    | some decode =>
      have hne : Element.complete bytes id behind ≠ .error .eof := by
        intro heof
        simp [hs, heof, Outcome.fault?] at h
      simp only [Element.complete_append hne more]
      cases Element.complete bytes id behind with
      | error fault => rfl
      | ok result =>
        dsimp only [Except.map]
        cases decode result.1 <;> rfl

/-! ### Whole elements -/

/-- Bytes behind an element are too many. -/
theorem whole_append_of_ok (h : s.whole bytes = .ok value) {more : List UInt8} (hmore : more ≠ []) :
    s.whole (bytes ++ more) = .error .extra := by
  have hfound := whole_eq_ok_iff.mp h
  have hne : (s.read bytes).fault? ≠ some .eof := by simp [hfound, Outcome.fault?]
  have hread := read_append hne more
  unfold whole
  rw [hread, hfound]
  simp [Outcome.append, hmore]

/-- A fault other than the end of the bytes stays, whatever is behind it. -/
private theorem whole_append_of_error {fault : Fault} (h : s.whole bytes = .error fault) (hne : fault ≠ .eof)
    (more : List UInt8) : s.whole (bytes ++ more) = .error fault := by
  unfold whole at h ⊢
  cases hread : s.read bytes with
  | found value rest =>
    rw [hread] at h
    have hrest : rest ≠ [] := by
      rintro rfl
      cases h
    rw [read_append (by simp [hread, Outcome.fault?]), hread]
    simpa [Outcome.append, hrest] using h
  | absent other | failed other =>
    rw [hread] at h
    cases h
    rw [read_append (by simpa [hread, Outcome.fault?] using hne), hread]
    rfl

/-- A part of an element that ends before it does is refused for that. -/
theorem whole_front (h : s.whole bytes = .ok value) (hfront : front <+: bytes) (hne : front ≠ bytes) :
    s.whole front = .error .eof := by
  obtain ⟨more, rfl⟩ := hfront
  have hmore : more ≠ [] := by
    rintro rfl
    exact hne (List.append_nil front).symm
  cases hwhole : s.whole front with
  | ok found =>
    rw [whole_append_of_ok hwhole hmore] at h
    cases h
  | error fault =>
    by_cases heof : fault = .eof
    · rw [heof]
    · rw [whole_append_of_error hwhole heof more] at h
      cases h

end Schema

end CertExtensions.Asn1
