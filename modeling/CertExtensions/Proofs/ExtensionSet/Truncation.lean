import CertExtensions.Proofs.ExtensionSet.AcceptedForm

/-!
# Where a stored set ends

Each reader of a part of a stored set stops as soon as it knows how it ends, so more bytes change nothing unless it has
run out of bytes (`incremental_takeStored`). Hence bytes that are cut off where a stored set goes on are never taken
for another set, nor for something wrong: the one thing that is found is that they end too early (`load_truncation`).
-/

namespace CertExtensions.ExtensionSet

open Reader

/-! ### Readers that only the end stops -/

private theorem incremental_takeBytes (n : Nat) : Incremental (.load .truncated) (takeBytes n) where
  ok h more := by
    obtain ⟨hlength, rfl⟩ := takeBytes_eq_ok h
    rw [List.append_assoc]
    exact takeBytes_append hlength _
  error h hne := by
    simp only [takeBytes] at h
    split at h
    · cases h
      exact absurd rfl hne
    · cases h

private theorem incremental_takeCount : Incremental (.load .truncated) takeCount :=
  .bind (incremental_takeBytes 4) fun _ => .ite (.throw _) (.pure _)

private theorem incremental_takeText (n : Nat) : Incremental (.load .truncated) (takeText n) := by
  refine .bind (incremental_takeBytes (2 * n)) fun field => ?_
  dsimp only
  split
  · exact .pure _
  · exact .throw _

private theorem incremental_takeEntry : Incremental (.load .truncated) takeEntry :=
  .bind incremental_takeCount fun _ => .bind (incremental_takeText _) fun _ =>
    .bind incremental_takeCount fun _ => .bind (incremental_takeBytes _) fun _ => .pure _

private theorem incremental_takeEntries (n : Nat) : Incremental (.load .truncated) (takeEntries n) := by
  induction n with
  | zero => exact .pure _
  | succ n ih => exact .bind incremental_takeEntry fun _ => .bind ih fun _ => .pure _

private theorem incremental_takeBlock : Incremental (.load .truncated) takeBlock :=
  .bind incremental_takeCount incremental_takeEntries

private theorem incremental_takeMark : Incremental (.load .truncated) takeMark :=
  .bind (incremental_takeBytes 8) fun _ => .ite (.throw _) (.pure _)

private theorem incremental_takeVersion : Incremental (.load .truncated) takeVersion :=
  .bind (incremental_takeBytes 4) fun _ => .ite (.throw _) (.pure _)

theorem incremental_takeStored : Incremental (.load .truncated) takeStored :=
  .bind incremental_takeMark fun _ => .bind incremental_takeVersion fun _ =>
    .bind incremental_takeBlock fun _ => .bind incremental_takeBlock fun _ => .pure _

/-! ### Whole sets -/

variable {bytes front : List UInt8} {critical nonCritical : List Partition.Entry}

private theorem load_append (h : load bytes ≠ .error (.load .truncated)) (more : List UInt8) :
    load (bytes ++ more) = load bytes := by
  rw [load_eq_map, load_eq_map] at *
  cases hread : takeStored bytes with
  | ok stored => rw [incremental_takeStored.ok hread more]; rfl
  | error error =>
    have hne : error ≠ .load .truncated := by
      rintro rfl
      exact h (by rw [hread]; rfl)
    rw [incremental_takeStored.error hread hne more]

/-- What two blocks with nothing behind them start with is too short to be loaded. -/
private theorem IsStored.load_front (h : IsStored bytes critical nonCritical []) (hfront : front <+: bytes)
    (hne : front ≠ bytes) : load front = .error (.load .truncated) := by
  obtain ⟨more, rfl⟩ := hfront
  by_contra hload
  obtain ⟨set, hset⟩ : ∃ set, load front = .ok set :=
    ⟨_, (load_append hload more).symm.trans (load_eq_ok_iff.mpr ⟨_, _, _, h, rfl⟩)⟩
  obtain ⟨critical', nonCritical', rest, hstored, -⟩ := load_eq_ok_iff.mp hset
  -- what is left behind the blocks in the front is still left in the whole
  have hwhole := incremental_takeStored.ok (takeStored_eq_ok_iff.mpr hstored) more
  obtain ⟨-, -, hrest⟩ := h.unique (takeStored_eq_ok_iff.mp hwhole)
  obtain ⟨-, rfl⟩ := List.append_eq_nil_iff.mp hrest.symm
  exact hne (List.append_nil front).symm

/-- More bytes do not change what bytes are loaded as, nor why they are refused, unless they are refused for ending too
early. For this, and nothing else, everything is refused that a stored set starts with and goes on from. -/
theorem load_truncation :
    (∀ bytes more, load bytes ≠ .error (.load .truncated) → load (bytes ++ more) = load bytes) ∧
      ∀ (set : ExtensionSet) (bytes : List UInt8), set.save = .ok bytes → ∀ front, front <+: bytes → front ≠ bytes →
        load front = .error (.load .truncated) := by
  refine ⟨fun bytes more h => load_append h more, ?_⟩
  intro set bytes hsave front
  obtain ⟨hcritical, hnonCritical, rfl⟩ := save_eq_ok hsave
  have hstored : IsStored (storedBytes set.criticalPart.entries set.nonCriticalPart.entries)
      set.criticalPart.entries set.nonCriticalPart.entries [] :=
    ⟨hcritical, hnonCritical, by rw [storedBytes_eq, List.append_nil]⟩
  exact hstored.load_front

/-- The stored form of one critical extension, without its last byte and with a byte more. -/
theorem load_truncation_single :
    let set := empty.insert ⟨"2.5", true, [5]⟩
    let bytes := set.save.toOption.getD []
    set.save = .ok bytes ∧ load bytes.dropLast = .error (.load .truncated) ∧ load (bytes ++ [0]) = load bytes := by
  intro set bytes
  have hsave : set.save = .ok bytes := by decide
  have hload : load bytes ≠ .error (.load .truncated) := by decide
  have hshorter : bytes.dropLast ≠ bytes := by decide
  obtain ⟨hmore, hfront⟩ := load_truncation
  exact ⟨hsave, hfront set bytes hsave _ (List.dropLast_prefix bytes) hshorter, hmore bytes [0] hload⟩

end CertExtensions.ExtensionSet
