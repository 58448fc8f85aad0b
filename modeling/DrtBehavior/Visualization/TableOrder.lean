import Mathlib.Data.List.Perm.Basic
import DrtBehavior.Visualization.FaithfulText

/-!
# The order of the replacement table

`process_text` takes the first entry of `text_replacements` that matches; the reset code is listed
twice.

* `processText_table_order` — with the entries in any other order the loop consumes the same
  pieces, every byte of the text once.
-/

set_option autoImplicit false

namespace DrtBehavior

namespace BehaviorTreeWidget

open Substitution

/-- **The order of the table does not matter.**  For every text and every permutation of
    `text_replacements` the loop ends: its turns have consumed the bytes of the text, each once,
    as part of a token of the table or copied unchanged, and the result is that of
    `process_text`. -/
theorem processText_table_order {table : List (Rule UInt8)} (h : table.Perm textReplacements)
    (text : StdString) :
    ∃ ps : List (Piece UInt8),
      loopPieces table text (text.length + 1) 0 = some ps ∧
      (∀ r, .token r ∈ ps → r ∈ textReplacements) ∧ source ps = text ∧
      processLoop table text (text.length + 1) 0 [] = some (output ps) ∧
      output ps = processText text := by
  have hmem : ∀ r, r ∈ table ↔ r ∈ textReplacements := fun r => h.mem_iff
  have hp : Proper table := textReplacements_proper.congr_mem hmem
  have hloop : loopPieces table text (text.length + 1) 0 = some (pieces table text) :=
    loopPieces_eq hp text _ 0 (Nat.zero_le _) (by omega)
  have hsame : pieces table text = pieces textReplacements text :=
    pieces_congr_mem textReplacements_proper textReplacements_prefixFree hmem text
  refine ⟨pieces table text, hloop, fun r hr => ?_, source_pieces hp text, ?_, ?_⟩
  · exact (hmem r).mp (mem_rules_of_token hp text hr)
  · rw [processLoop_pieces, hloop]
    rfl
  · rw [hsame, processText_eq, replace]

theorem processText_table_order_reverse :
    ∃ ps : List (Piece UInt8),
      loopPieces textReplacements.reverse (bytes "\x1b[32m\tok\x1b[0m") 13 0 = some ps ∧
      (∀ r, .token r ∈ ps → r ∈ textReplacements) ∧
      source ps = bytes "\x1b[32m\tok\x1b[0m" ∧
      processLoop textReplacements.reverse (bytes "\x1b[32m\tok\x1b[0m") 13 0 [] =
        some (output ps) ∧
      output ps = processText (bytes "\x1b[32m\tok\x1b[0m") :=
  processText_table_order (List.reverse_perm _) (bytes "\x1b[32m\tok\x1b[0m")

end BehaviorTreeWidget

end DrtBehavior
