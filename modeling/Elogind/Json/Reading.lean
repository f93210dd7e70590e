/-
  Elogind.Json.Reading

  `json_parse_internal` accepts its grammar: the texts that are one value with white space around it, not
  deeper than `DEPTH_MAX`.
-/

import Elogind.Json.ParseComplete
import Elogind.Json.ParseSound

namespace Elogind

open Byte Errno

/-- The loop ends on every text, without a failed assertion, and there is a variant if and only if the text
    denotes a value that is not too deep; the variant has that value then. -/
theorem jsonParseInternal_done_iff {R : Type} [Double R] (free : Nat) (input : Bytes) :
    ∃ r : JsonRound R, jsonParseInternal false free input = some r ∧ r ≠ .assertFailed ∧ (∀ s, r ≠ .next s) ∧
      ∀ v : Json R, (∃ w p, r = .done w p ∧ w.value = v) ↔ JsonDocument v input ∧ v.depth ≤ depthMax := by
  obtain ⟨r, hr, hholds⟩ := jsonParseInternal_sound (R := R) free input
  refine ⟨r, hr, ?_, ?_, ?_⟩
  · rintro rfl
    exact hholds
  · rintro s rfl
    exact absurd hholds.2 (Nat.not_lt_zero _)
  · intro v
    constructor
    · rintro ⟨w, p, rfl, rfl⟩
      exact ⟨hholds.1, hholds.2.1⟩
    · rintro ⟨hdocument, hmax⟩
      obtain ⟨w, hw, hvalue⟩ := jsonParseInternal_complete hdocument hmax hr
      exact ⟨w, [], hw, hvalue⟩

/-- A string with an escaped character that `unichar_is_valid` does not allow is refused. -/
theorem jsonParseInternal_noncharacter :
    JsonQuoted [0xfffe] (ascii "\"\\uFFFE\"") ∧ utf8EncodeUnichar 0xfffe = [0xef, 0xbf, 0xbe] ∧
      (jsonParseInternal false 0 (ascii "\"\\uFFFE\"") : Option (JsonRound Unit)) = some (.failed EUCLEAN) := by
  refine ⟨.quotes (.cons (t := ascii "\\uFFFE") (.unicode (.digits rfl rfl rfl rfl) ?_ ?_) .nil), ?_, ?_⟩
  · decide
  · decide
  · decide
  · rfl

end Elogind
