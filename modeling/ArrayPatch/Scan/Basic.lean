import ArrayPatch.Error
import ArrayPatch.Scan.Cursor
import ArrayPatch.Site

/-!
# Scans

A scan yields the sites found on the way and either a result or the first
fault.  The sites are listed in the order in which their objects close.  A
scan that fails keeps the sites of the objects that it has closed.

Scans are put one after the other by `bind`: the second one runs only if the
first one succeeds, and its sites follow those of the first.
-/

namespace ArrayPatch

/-- The sites found by a scan, and how the scan ends. -/
structure Scan (α : Type) where
  found : List Site
  result : Except Fault α

namespace Scan

variable {α β γ : Type}

/-- Run a scan and then the one that its result chooses. -/
protected def bind (scan : Scan α) (next : α → Scan β) : Scan β :=
  match scan with
  | ⟨found, .error fault⟩ => ⟨found, .error fault⟩
  | ⟨found, .ok a⟩ =>
      let ⟨foundNext, result⟩ := next a
      ⟨found ++ foundNext, result⟩

instance : Monad Scan where
  pure a := ⟨[], .ok a⟩
  bind := Scan.bind

/-- End with a fault. -/
def fail (flaw : Flaw) (offset : Nat) : Scan α :=
  ⟨[], .error ⟨flaw, offset⟩⟩

/-- Report a site, if there is one. -/
def report (site? : Option Site) : Scan Unit :=
  ⟨site?.toList, .ok ()⟩

/-- A step that finds no sites. -/
def ofExcept (result : Except Fault α) : Scan α :=
  ⟨[], result⟩

@[simp]
theorem found_pure (a : α) : (pure a : Scan α).found = [] :=
  rfl

@[simp]
theorem result_pure (a : α) : (pure a : Scan α).result = .ok a :=
  rfl

@[simp]
theorem found_bind (scan : Scan α) (next : α → Scan β) :
    (scan >>= next).found =
      match scan.result with
      | .ok a => scan.found ++ (next a).found
      | .error _ => scan.found := by
  rcases scan with ⟨found, _ | _⟩ <;> rfl

@[simp]
theorem result_bind (scan : Scan α) (next : α → Scan β) :
    (scan >>= next).result = scan.result.bind fun a => (next a).result := by
  rcases scan with ⟨found, _ | _⟩ <;> rfl

theorem ext_iff {left right : Scan α} :
    left = right ↔ left.found = right.found ∧ left.result = right.result := by
  cases left; cases right; simp

/-- Three scans in a row can be grouped either way. -/
theorem bind_assoc (scan : Scan α) (next : α → Scan β) (last : β → Scan γ) :
    scan >>= next >>= last = scan >>= fun a => next a >>= last := by
  rcases scan with ⟨found, fault | a⟩
  · rfl
  · rw [ext_iff]
    simp only [found_bind, result_bind, Except.bind]
    cases (next a).result <;> simp

end Scan

end ArrayPatch
