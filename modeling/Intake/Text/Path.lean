/-
# Extension and last part of a path

Models `FileExtension` and `Basename`.  One pass over the path keeps a candidate: a dot starts a new
extension and a slash forgets it; for the last part, each slash starts over.
-/
import Intake.Bytes

namespace Intake.Path

/-- Scans on with the extension found so far. -/
def extensionFrom (found : Option Bytes) : Bytes → Option Bytes
  | [] => found
  | c :: r =>
    if c = 46 then extensionFrom (some r) r
    else if c = 47 then extensionFrom none r
    else extensionFrom found r

/-- What follows the last dot of the last component, if that component has a dot. -/
def extension? (path : Bytes) : Option Bytes := extensionFrom none path

/-- Scans on with the last component found so far. -/
def baseFrom (found : Bytes) : Bytes → Bytes
  | [] => found
  | c :: r => if c = 47 then baseFrom r r else baseFrom found r

/-- What follows the last slash. -/
def base (path : Bytes) : Bytes := baseFrom path path

/-- The parts between slashes; there is always one more of them than there are slashes. -/
def components : Bytes → List Bytes
  | [] => [[]]
  | c :: r =>
    if c = 47 then [] :: components r
    else
      match components r with
      | [] => [[c]]
      | p :: ps => (c :: p) :: ps

theorem components_ne_nil (path : Bytes) : components path ≠ [] := by
  induction path with
  | nil => simp [components]
  | cons c r ih =>
    unfold components
    split
    · simp
    · split <;> simp

/-- A slash separates the components of the two sides. -/
theorem components_append_slash (a b : Bytes) :
    components (a ++ 47 :: b) = components a ++ components b := by
  induction a with
  | nil => simp [components]
  | cons c r ih =>
    by_cases h : c = 47
    · simp [components, h, ih]
    · simp only [List.cons_append, components, if_neg h, ih]
      cases hr : components r with
      | nil => exact absurd hr (components_ne_nil r)
      | cons p ps => simp

/-- A name without a slash is one component. -/
theorem components_of_no_slash {a : Bytes} (h : (47 : UInt8) ∉ a) : components a = [a] := by
  induction a with
  | nil => rfl
  | cons c r ih =>
    have hc : ¬ c = 47 := fun e => h (by simp [e])
    have hr : (47 : UInt8) ∉ r := fun e => h (by simp [e])
    simp [components, hc, ih hr]

end Intake.Path
