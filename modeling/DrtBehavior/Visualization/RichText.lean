import DrtBehavior.Base.Substitution
import DrtBehavior.Visualization.TreeWidget

/-!
# Rich text of the behavior tree widget

How `BehaviorTreeWidget` turns the lines of its two text boxes into HTML.

* `textReplacements`, `processText` — one line; `processLoop_eq`: the loop ends, and what it
  computes is `Substitution.replace`.
* `loopPieces` — what the turns of the loop consume, a matched token or one byte each.
* `updateBtText`, `updateLogText` — the lines of a box, joined by `<br/>`.
-/

set_option autoImplicit false

namespace DrtBehavior

namespace BehaviorTreeWidget

open Substitution

/-! ## process_text -/

def green : StdString := bytes "\x1b[92m"
def red : StdString := bytes "\x1b[91m"
def blue : StdString := bytes "\x1b[96m"
def yellow : StdString := bytes "\x1b[93m"
def endColor : StdString := bytes "\x1b[0m"

/-- `text_replacements`, in the order of the source. -/
def textReplacements : List (Rule UInt8) :=
  [⟨green, bytes "<font color=\"Green\">"⟩,
    ⟨bytes "\x1b[32m", bytes "<font color=\"Green\">"⟩,
    ⟨red, bytes "<font color=\"Red\">"⟩,
    ⟨bytes "\x1b[31m", bytes "<font color=\"Red\">"⟩,
    ⟨blue, bytes "<font color=\"Blue\">"⟩,
    ⟨bytes "\x1b[34m", bytes "<font color=\"Blue\">"⟩,
    ⟨yellow, bytes "<font color=\"Orange\">"⟩,
    ⟨bytes "\x1b[33m", bytes "<font color=\"Orange\">"⟩,
    ⟨bytes "\x1b[36m", bytes "<font color=\"Cyan\">"⟩,
    ⟨endColor, bytes "</font>"⟩,
    ⟨bytes "\x1b[0m", bytes "</font>"⟩,
    ⟨bytes "\t", bytes "  "⟩,
    ⟨bytes "│   ", bytes "|&nbsp;&nbsp;&nbsp;"⟩,
    ⟨bytes "    ", bytes "&nbsp;&nbsp;&nbsp;&nbsp;"⟩,
    ⟨bytes "\n", bytes "<br/>"⟩,
    ⟨bytes "\r", bytes "<br/>"⟩]

/-- `text.compare(i, old_text.size(), old_text) == 0`. -/
def compare (text : StdString) (i : Nat) (oldText : StdString) : Bool :=
  (text.drop i).take oldText.length == oldText

/-- The `while` loop of `process_text` from position `i`; `none` when it has not ended after the
    given number of turns. -/
def processLoop (table : List (Rule UInt8)) (text : StdString) :
    Nat → Nat → StdString → Option StdString
  | 0, _, _ => none
  | turns + 1, i, result =>
    if h : i < text.length then
      match table.find? fun r => compare text i r.oldText with
      | some r => processLoop table text turns (i + r.oldText.length) (result ++ r.newText)
      | none => processLoop table text turns (i + 1) (result ++ [text[i]])
    else some result

theorem compare_eq (text : StdString) (i : Nat) (oldText : StdString) :
    compare text i oldText = oldText.isPrefixOf (text.drop i) := by
  rw [Bool.eq_iff_iff, List.isPrefixOf_iff_prefix, List.prefix_iff_eq_take, compare, beq_iff_eq]
  exact eq_comm

/-- What the turns of `processLoop` from position `i` consume, turn by turn. -/
def loopPieces (table : List (Rule UInt8)) (text : StdString) :
    Nat → Nat → Option (List (Piece UInt8))
  | 0, _ => none
  | turns + 1, i =>
    if h : i < text.length then
      match table.find? fun r => compare text i r.oldText with
      | some r => (loopPieces table text turns (i + r.oldText.length)).map (.token r :: ·)
      | none => (loopPieces table text turns (i + 1)).map (.copied text[i] :: ·)
    else some []

/-- The result of the loop is made of what its turns consume. -/
theorem processLoop_pieces (table : List (Rule UInt8)) (text : StdString) :
    ∀ (turns i : Nat) (result : StdString),
      processLoop table text turns i result =
        (loopPieces table text turns i).map fun ps => result ++ output ps
  | 0, _, _ => rfl
  | turns + 1, i, result => by
    unfold processLoop loopPieces
    split
    · cases table.find? fun r => compare text i r.oldText with
      | some r =>
        simp only [processLoop_pieces table text turns, Option.map_map]
        refine congrArg (Option.map · _) (funext fun ps => ?_)
        exact List.append_assoc result r.newText (output ps)
      | none =>
        simp only [processLoop_pieces table text turns, Option.map_map]
        refine congrArg (Option.map · _) (funext fun ps => ?_)
        exact List.append_assoc result _ (output ps)
    · rw [Option.map_some]
      exact congrArg some (List.append_nil result).symm

/-- **The loop ends**, every turn moves `i` on, and its turns consume the pieces of the scan. -/
theorem loopPieces_eq {table : List (Rule UInt8)} (hp : Proper table) (text : StdString) :
    ∀ (turns i : Nat), i ≤ text.length → text.length < turns + i →
      loopPieces table text turns i = some (pieces table (text.drop i))
  | 0, i, hi, hturns => by omega
  | turns + 1, i, hi, hturns => by
    unfold loopPieces
    simp only [compare_eq]
    split
    · rename_i hlt
      split
      · rename_i r hm
        obtain ⟨hr, rest, hrest⟩ := firstMatch_some hm
        have hpos : 0 < r.oldText.length := List.length_pos_of_ne_nil (hp r hr)
        have hlen : text.length - i = r.oldText.length + rest.length := by
          rw [← List.length_drop, hrest, List.length_append]
        have hdrop : text.drop (i + r.oldText.length) = rest := by
          rw [← List.drop_drop, hrest, List.drop_left]
        have hm' : firstMatch table (r.oldText ++ rest) = some r := hrest ▸ hm
        rw [loopPieces_eq hp text turns _ (by omega) (by omega), hdrop, hrest,
          pieces_token hp hm', Option.map_some]
      · rename_i hm
        have hdrop : text.drop i = text[i] :: text.drop (i + 1) := List.drop_eq_getElem_cons hlt
        have hm' : firstMatch table (text[i] :: text.drop (i + 1)) = none := hdrop ▸ hm
        rw [loopPieces_eq hp text turns _ (by omega) (by omega), hdrop, pieces_copied hm',
          Option.map_some]
    · rename_i hge
      rw [List.drop_of_length_le (by omega), pieces_nil]

/-- The loop replaces the rest of the text. -/
theorem processLoop_eq {table : List (Rule UInt8)} (hp : Proper table) (text : StdString)
    (turns i : Nat) (result : StdString) (hi : i ≤ text.length) (hturns : text.length < turns + i) :
    processLoop table text turns i result = some (result ++ replace table (text.drop i)) := by
  rw [processLoop_pieces, loopPieces_eq hp text turns i hi hturns]
  rfl

theorem textReplacements_proper : Proper textReplacements := by decide

theorem processLoop_text (text : StdString) :
    processLoop textReplacements text (text.length + 1) 0 [] =
      some (replace textReplacements text) :=
  processLoop_eq textReplacements_proper text _ 0 [] (Nat.zero_le _) (by omega)

/-- `process_text`. -/
def processText (text : StdString) : StdString :=
  (processLoop textReplacements text (text.length + 1) 0 []).get
    (by rw [processLoop_text]; rfl)

theorem processText_eq (text : StdString) :
    processText text = replace textReplacements text := by
  simp only [processText, processLoop_text, Option.get_some]

/-! ## The two text boxes -/

/-- The loop of `update_bt_text` and of `update_log_text` over the lines: `first_time` and the
    text so far. -/
def joinProcessed (lines : List StdString) : StdString :=
  (lines.foldl (fun (state : Bool × StdString) line =>
    (false, (if state.1 then state.2 else state.2 ++ bytes "<br/>") ++ processText line))
    (true, [])).2

/-- The HTML `update_bt_text` hands to `setHtml`. -/
def updateBtText (w : BehaviorTreeWidget) : StdString :=
  bytes "<pre>" ++ joinProcessed w.btText ++ bytes "</pre>"

/-- The HTML `update_log_text` hands to `setHtml`. -/
def updateLogText (w : BehaviorTreeWidget) : StdString :=
  bytes "<pre style='white-space: pre-wrap;'>" ++ joinProcessed w.log ++ bytes "</pre>"

theorem foldl_joinProcessed (lines : List StdString) : ∀ text : StdString,
    (lines.foldl (fun (state : Bool × StdString) line =>
      (false, (if state.1 then state.2 else state.2 ++ bytes "<br/>") ++ processText line))
      (false, text)).2 = text ++ lines.flatMap fun line => bytes "<br/>" ++ processText line := by
  induction lines with
  | nil => simp
  | cons line lines ih =>
    intro text
    rw [List.foldl_cons, ih]
    simp

/-- The lines are joined by `<br/>`. -/
theorem joinProcessed_eq (lines : List StdString) :
    joinProcessed lines = (bytes "<br/>").intercalate (lines.map processText) := by
  cases lines with
  | nil => rfl
  | cons line lines =>
    rw [joinProcessed, List.foldl_cons, foldl_joinProcessed]
    simp only [if_true, List.nil_append, List.map_cons]
    induction lines generalizing line with
    | nil => simp [List.intercalate]
    | cons next lines ih =>
      rw [List.map_cons, List.flatMap_cons, List.intercalate_cons_cons, ← ih next]
      simp

end BehaviorTreeWidget

end DrtBehavior
