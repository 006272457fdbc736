import CertExtensions.BigEndian
import Mathlib.Data.List.Forall2

/-!
# Steps that can fail

Readers pass on the bytes that they have not read, and stop at the first error. What a reader does behind a step is
what it does with the step's value and the bytes that the step has left (`bind_of_ok`); behind an error it does
nothing (`bind_of_error`). Where the whole succeeds, each step has succeeded (`step_of_bind_eq_ok`, `bind_eq_ok`,
`map_eq_ok`). Steps that more bytes at the end do not change make up such a reader (`Incremental.bind`). A step for
each item of a list gives the results of the items (`mapM_eq_ok_iff`), or the error of the first item that has one
(`mapM_eq_error_iff`).
-/

namespace CertExtensions.Reader

variable {σ ε α β : Type} {step : StateT σ (Except ε) α} {next : α → StateT σ (Except ε) β} {bytes rest : σ}

theorem bind_of_ok {value : α} (h : step bytes = .ok (value, rest)) : (step >>= next) bytes = next value rest := by
  change (step bytes >>= fun result => next result.1 result.2) = _
  rw [h]
  rfl

theorem bind_of_error {error : ε} (h : step bytes = .error error) : (step >>= next) bytes = .error error := by
  change (step bytes >>= fun result => next result.1 result.2) = _
  rw [h]
  rfl

theorem step_of_bind_eq_ok {result : β} {after : σ} (h : (step >>= next) bytes = .ok (result, after)) :
    ∃ value rest, step bytes = .ok (value, rest) ∧ next value rest = .ok (result, after) := by
  cases hstep : step bytes with
  | error error =>
    rw [bind_of_error hstep] at h
    cases h
  | ok found =>
    rw [bind_of_ok hstep] at h
    exact ⟨found.1, found.2, rfl, h⟩

/-- Two steps that succeed one after the other. -/
theorem bind_eq_ok {first : Except ε α} {next : α → Except ε β} {result : β} (h : first >>= next = .ok result) :
    ∃ value, first = .ok value ∧ next value = .ok result := by
  cases first with
  | error error => cases h
  | ok value => exact ⟨value, rfl, h⟩

theorem map_eq_ok {first : Except ε α} {f : α → β} {result : β} (h : first.map f = .ok result) :
    ∃ value, first = .ok value ∧ f value = result := by
  cases first with
  | error error => cases h
  | ok value => exact ⟨value, rfl, Except.ok.inj h⟩

theorem mapError_eq_ok_iff {ε' : Type} {result : Except ε α} {wrap : ε → ε'} {value : α} :
    result.mapError wrap = .ok value ↔ result = .ok value := by
  constructor
  · intro h
    cases result with
    | error error => cases h
    | ok found => exact congrArg Except.ok (Except.ok.inj h)
  · rintro rfl
    rfl

/-! ### More bytes -/

/-- Whether more bytes at the end do not change how the reader ends, except where it has met the end. -/
structure Incremental {γ : Type} (ended : ε) (read : StateT (List γ) (Except ε) α) : Prop where
  ok : ∀ {bytes value rest}, read bytes = .ok (value, rest) → ∀ more, read (bytes ++ more) = .ok (value, rest ++ more)
  error : ∀ {bytes error}, read bytes = .error error → error ≠ ended → ∀ more, read (bytes ++ more) = .error error

namespace Incremental

variable {γ : Type} {ended : ε} {read : StateT (List γ) (Except ε) α} {next : α → StateT (List γ) (Except ε) β}

/-- To read with more bytes at the end is to read without them and leave them behind. -/
theorem of_append (h : ∀ bytes more, read bytes ≠ .error ended →
    read (bytes ++ more) = (read bytes).map fun result => (result.1, result.2 ++ more)) : Incremental ended read where
  ok {bytes _ _} hread more := by
    have hmore := h bytes more
    rw [hread] at hmore
    exact hmore nofun
  error {bytes _} hread hne more := by
    have hmore := h bytes more
    rw [hread] at hmore
    exact hmore fun heq => hne (Except.error.inj heq)

theorem pure (value : α) : Incremental ended (pure value : StateT (List γ) (Except ε) α) where
  ok h _ := by
    cases h
    rfl
  error h := by cases h

theorem throw (error : ε) : Incremental ended (throw error : StateT (List γ) (Except ε) α) where
  ok h := by cases h
  error h _ _ := by
    cases h
    rfl

theorem ite {c : Prop} [Decidable c] {other : StateT (List γ) (Except ε) α} (hread : Incremental ended read)
    (hother : Incremental ended other) : Incremental ended (if c then read else other) := by
  split
  · exact hread
  · exact hother

theorem bind (hread : Incremental ended read) (hnext : ∀ value, Incremental ended (next value)) :
    Incremental ended (read >>= next) where
  ok h more := by
    obtain ⟨value, rest, hvalue, h⟩ := step_of_bind_eq_ok h
    rw [bind_of_ok (hread.ok hvalue more)]
    exact (hnext value).ok h more
  error {bytes error} h hne more := by
    cases hfirst : read bytes with
    | error fault =>
      rw [bind_of_error hfirst] at h
      cases h
      exact bind_of_error (hread.error hfirst hne more)
    | ok found =>
      rw [bind_of_ok hfirst] at h
      rw [bind_of_ok (hread.ok hfirst more)]
      exact (hnext found.1).error h hne more

end Incremental

/-! ### A step for each item of a list -/

variable {step : α → Except ε β} {items : List α}

theorem mapM_eq_ok_iff {results : List β} :
    items.mapM step = .ok results ↔ List.Forall₂ (fun item result => step item = .ok result) items results := by
  constructor
  · intro h
    induction items generalizing results with
    | nil =>
      cases h
      exact .nil
    | cons item items ih =>
      rw [List.mapM_cons] at h
      obtain ⟨result, hitem, h⟩ := bind_eq_ok h
      obtain ⟨others, hitems, h⟩ := bind_eq_ok h
      cases h
      exact .cons hitem (ih hitems)
  · intro h
    induction h with
    | nil => rfl
    | cons hitem _ ih =>
      rw [List.mapM_cons, hitem, ih]
      rfl

/-- The error is that of the first item that gives one. -/
theorem mapM_eq_error_iff {error : ε} :
    items.mapM step = .error error ↔
      ∃ front item back, items = front ++ item :: back ∧ (∀ other ∈ front, ∃ result, step other = .ok result) ∧
        step item = .error error := by
  constructor
  · intro h
    induction items with
    | nil => cases h
    | cons item items ih =>
      rw [List.mapM_cons] at h
      cases hitem : step item with
      | error other =>
        rw [hitem] at h
        cases h
        exact ⟨[], item, items, rfl, nofun, hitem⟩
      | ok result =>
        cases hitems : items.mapM step with
        | ok others =>
          rw [hitem, hitems] at h
          cases h
        | error other =>
          rw [hitem, hitems] at h
          cases h
          obtain ⟨front, first, back, rfl, hfront, hfirst⟩ := ih hitems
          refine ⟨item :: front, first, back, rfl, ?_, hfirst⟩
          intro other hother
          rcases List.mem_cons.mp hother with rfl | hother
          · exact ⟨result, hitem⟩
          · exact hfront other hother
  · rintro ⟨front, item, back, rfl, hfront, hitem⟩
    induction front with
    | nil =>
      rw [List.nil_append, List.mapM_cons, hitem]
      rfl
    | cons other front ih =>
      obtain ⟨result, hother⟩ := hfront other List.mem_cons_self
      rw [List.cons_append, List.mapM_cons, hother, ih fun next hnext => hfront next (List.mem_cons_of_mem _ hnext)]
      rfl

theorem exists_mapM_eq_ok_iff :
    (∃ results, items.mapM step = .ok results) ↔ ∀ item ∈ items, ∃ result, step item = .ok result := by
  induction items with
  | nil => simp [pure, Except.pure]
  | cons item items ih =>
    rw [List.forall_mem_cons, ← ih]
    constructor
    · rintro ⟨results, h⟩
      cases mapM_eq_ok_iff.mp h with
      | cons hitem hitems => exact ⟨⟨_, hitem⟩, _, mapM_eq_ok_iff.mpr hitems⟩
    · rintro ⟨⟨result, hitem⟩, results, hitems⟩
      exact ⟨result :: results, mapM_eq_ok_iff.mpr (.cons hitem (mapM_eq_ok_iff.mp hitems))⟩

/-- A step that gives a function of what another one gives for the item at the same place. -/
theorem mapM_eq_map {γ δ : Type} {others : List γ} {first : γ → Except ε δ} {f : β → δ}
    (h : List.Forall₂ (fun other item => first other = (step item).map f) others items) :
    others.mapM first = (items.mapM step).map (List.map f) := by
  induction h with
  | nil => rfl
  | @cons other item others items hitem _ ih =>
    rw [List.mapM_cons, List.mapM_cons, hitem, ih]
    cases step item with
    | error error => rfl
    | ok result => cases items.mapM step <;> rfl

theorem mem_of_forall₂ {relation : α → β → Prop} {results : List β} (h : List.Forall₂ relation items results) :
    (∀ item ∈ items, ∃ result ∈ results, relation item result) ∧
      ∀ result ∈ results, ∃ item ∈ items, relation item result := by
  induction h with
  | nil => simp
  | cons hfirst _ ih =>
    obtain ⟨hleft, hright⟩ := ih
    constructor
    · intro x hx
      rcases List.mem_cons.mp hx with rfl | hx
      · exact ⟨_, List.mem_cons_self, hfirst⟩
      · obtain ⟨y, hy, hrelated⟩ := hleft x hx
        exact ⟨y, List.mem_cons_of_mem _ hy, hrelated⟩
    · intro y hy
      rcases List.mem_cons.mp hy with rfl | hy
      · exact ⟨_, List.mem_cons_self, hfirst⟩
      · obtain ⟨x, hx, hrelated⟩ := hright y hy
        exact ⟨x, List.mem_cons_of_mem _ hx, hrelated⟩

theorem mem_of_mapM_ok {results : List β} (h : items.mapM step = .ok results) :
    (∀ item ∈ items, ∃ result ∈ results, step item = .ok result) ∧
      ∀ result ∈ results, ∃ item ∈ items, step item = .ok result :=
  mem_of_forall₂ (mapM_eq_ok_iff.mp h)

theorem mem_of_mapM_error {error : ε} (h : items.mapM step = .error error) :
    ∃ item ∈ items, step item = .error error := by
  obtain ⟨front, item, back, rfl, -, hitem⟩ := mapM_eq_error_iff.mp h
  exact ⟨item, List.mem_append_right _ List.mem_cons_self, hitem⟩

/-- A step that gives what a function makes of its item, or always the same error. -/
theorem mapM_ite {p : α → Prop} [DecidablePred p] (f : α → β) (error : ε) (items : List α) :
    (items.mapM fun item => if p item then .error error else .ok (f item)) =
      (if ∃ item ∈ items, p item then .error error else .ok (items.map f) : Except ε (List β)) := by
  induction items with
  | nil => simp [pure, Except.pure]
  | cons item items ih =>
    rw [List.mapM_cons, ih]
    by_cases hitem : p item
    · simp [hitem, bind, Except.bind]
    · by_cases hitems : ∃ other ∈ items, p other
      · simp [hitem, hitems, bind, Except.bind]
      · simp [hitem, hitems, bind, Except.bind, pure, Except.pure]

/-- A step that gives its item back, or always the same error. -/
theorem mapM_guard {p : α → Prop} [DecidablePred p] (error : ε) (items : List α) :
    (items.mapM fun item => if p item then .error error else .ok item) =
      (if ∃ item ∈ items, p item then .error error else .ok items : Except ε (List α)) := by
  have h := mapM_ite (p := p) id error items
  rw [List.map_id] at h
  exact h

end CertExtensions.Reader
