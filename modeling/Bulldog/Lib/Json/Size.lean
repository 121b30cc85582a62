import Mathlib
import Bulldog.Lib.Json.Normal

/-!
# The size of a text

The length of an object's text is the sum of the sizes of its members, in whatever order they are
written, and the length of a string's text is that of the escapes of its characters: one character
of printable ASCII, two with a backslash of its own, six of the Basic Multilingual Plane, and twelve,
for two surrogates, of the planes above it.
-/

namespace Bulldog

/-! ## Strings -/

/-- The length of the escapes of a string. -/
def escapedLength (s : Str) : ℕ := (s.flatMap (escapeChar true)).length

theorem length_renderStr (s : Str) : (renderStr true s).length = escapedLength s + 2 := by
  rw [renderStr, List.length_append, List.length_cons, escapedLength, List.length_singleton]

theorem escapedLength_nil : escapedLength [] = 0 := rfl

theorem escapedLength_replicate (n : ℕ) (c : Char) :
    escapedLength (List.replicate n c) = n * (escapeChar true c).length := by
  rw [escapedLength, List.length_flatMap, List.map_replicate, List.sum_replicate_nat]

section Objects

variable {F : Type} [PyFloat F]

/-! ## Objects -/

/-- What a member takes in the text of an object, with its separators. -/
def fieldSize (st : Style) (field : Str × Json F) : ℕ :=
  (renderStr st.ascii field.1).length + (field.2.render st).length + 2 * st.pad.length + 2

theorem length_renderFields (st : Style) (fs : Fields F) :
    (renderFields st fs).length = 1 + (fs.map (fieldSize st)).sum := by
  induction fs with
  | nil => rfl
  | cons field fs ih =>
    obtain ⟨k, v⟩ := field
    rw [renderFields, List.map_cons, List.sum_cons, fieldSize]
    simp only [List.length_cons, List.length_append, ih]
    omega

theorem length_render_obj (st : Style) {fs : Fields F} (hne : fs ≠ []) :
    ((Json.obj fs).render st).length + st.pad.length = 1 + (fs.map (fieldSize st)).sum := by
  rcases fs with _ | ⟨⟨k, v⟩, fs⟩
  · exact absurd rfl hne
  · rw [Json.render, List.map_cons, List.sum_cons, fieldSize]
    simp only [List.length_cons, List.length_append, length_renderFields]
    omega

/-- Sorting the members keeps the length of the text. -/
theorem length_render_norm_obj (st : Style) (fs : Fields F) (hne : fs ≠ []) :
    ((Json.obj fs).norm.render st).length + st.pad.length =
      1 + (fs.map fun kv => fieldSize st (kv.1, kv.2.norm)).sum := by
  have hperm := Fields.sort_perm (normFields fs)
  have hnorm : (Json.obj fs).norm = .obj (Fields.sort (normFields fs)) := rfl
  have hne' : Fields.sort (normFields fs) ≠ [] := by
    intro hnil
    rw [hnil, normFields_eq_map] at hperm
    exact hne (List.map_eq_nil_iff.1 hperm.symm.eq_nil)
  rw [hnorm, length_render_obj st hne', (hperm.map (fieldSize st)).sum_eq, normFields_eq_map,
    List.map_map]
  rfl

end Objects

end Bulldog
