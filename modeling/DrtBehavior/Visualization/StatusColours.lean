import Mathlib.Data.List.Forall2
import DrtBehavior.Status.WireFormat
import DrtBehavior.Visualization.RichText

/-!
# Status colours, from the logger to the widget

The logger wraps every status word in ANSI codes, the widget replaces the codes by font tags; in
between the message is cut at every `;`.

* `Untagged`, `Tagged` — what `process_text` makes of a segment: no font tag, or one pair around a
  status word.
* `NodeSegments` — the segments of one node: all untagged but the last.
* `status_colours` — the segments of a message are those of the nodes, in tree order.  No token
  that starts in a name reaches an escape code: `ESC` is only ever the first byte of a token.
-/

set_option autoImplicit false

namespace DrtBehavior

namespace BehaviorTreeWidget

open Substitution DRTBehaviorBtcppLogger

/-- `ESC`. -/
def esc : UInt8 := 0x1b

/-- `BT::toStr(status)`, without colours. -/
def statusWord : NodeStatus → StdString
  | .success => bytes "SUCCESS"
  | .failure => bytes "FAILURE"
  | .running => bytes "RUNNING"
  | .skipped => bytes "SKIPPED"
  | .idle => bytes "IDLE"

/-- The colour a status is to be shown in. -/
def statusColour : NodeStatus → StdString
  | .success => bytes "Green"
  | .failure => bytes "Red"
  | .running => bytes "Orange"
  | .skipped => bytes "Blue"
  | .idle => bytes "Cyan"

def openingTag (colour : StdString) : StdString :=
  bytes "<font color=\"" ++ colour ++ bytes "\">"

def closingTag : StdString := bytes "</font>"

/-- A replacement that is a font tag. -/
def IsFontTag (newText : StdString) : Prop := bytes "<font" <+: newText ∨ newText = closingTag

instance (newText : StdString) : Decidable (IsFontTag newText) :=
  inferInstanceAs (Decidable (_ ∨ _))

/-- Pieces without a font tag. -/
def NoFontTag (ps : List (Piece UInt8)) : Prop := ∀ r, .token r ∈ ps → ¬ IsFontTag r.newText

/-- `process_text` inserts no font tag and leaves no `ESC`. -/
def Untagged (segment : StdString) : Prop :=
  NoFontTag (pieces textReplacements segment) ∧ esc ∉ processText segment

/-- `process_text` inserts one pair of font tags, around the status word at the end, in the colour
    of the status, and leaves no `ESC`. -/
def Tagged (status : NodeStatus) (segment : StdString) : Prop :=
  ∃ before opening closing,
    pieces textReplacements segment =
        before ++ (.token opening :: ((statusWord status).map .copied ++ [.token closing])) ∧
      NoFontTag before ∧
      opening.newText = openingTag (statusColour status) ∧ closing.newText = closingTag ∧
      processText segment = output before ++ openingTag (statusColour status) ++
        statusWord status ++ closingTag ∧
      esc ∉ processText segment

/-- The segments of a node with a status: parts of its name, then one with the status. -/
def NodeSegments (status : NodeStatus) (segments : List StdString) : Prop :=
  ∃ parts last, segments = parts ++ [last] ∧ (∀ part ∈ parts, Untagged part) ∧ Tagged status last

/-! ## The table -/

theorem startsOnly_esc : StartsOnly textReplacements esc := by decide +kernel

theorem row_esc : ∀ r ∈ textReplacements, esc ∉ r.newText := by decide +kernel

theorem row_fontTag : ∀ r ∈ textReplacements, IsFontTag r.newText → esc ∈ r.oldText := by
  decide +kernel

/-- The code of a status is one token, the word is copied, the reset code is one token. -/
theorem pieces_ansiStatus (status : NodeStatus) : ∃ opening closing,
    pieces textReplacements (ansiStatus status) =
        .token opening :: ((statusWord status).map .copied ++ [.token closing]) ∧
      opening.newText = openingTag (statusColour status) ∧ closing.newText = closingTag := by
  cases status with
  | success => exact ⟨⟨bytes "\x1b[32m", _⟩, ⟨endColor, _⟩, by decide +kernel, rfl, rfl⟩
  | failure => exact ⟨⟨bytes "\x1b[31m", _⟩, ⟨endColor, _⟩, by decide +kernel, rfl, rfl⟩
  | running => exact ⟨⟨bytes "\x1b[33m", _⟩, ⟨endColor, _⟩, by decide +kernel, rfl, rfl⟩
  | skipped => exact ⟨⟨bytes "\x1b[34m", _⟩, ⟨endColor, _⟩, by decide +kernel, rfl, rfl⟩
  | idle => exact ⟨⟨bytes "\x1b[36m", _⟩, ⟨endColor, _⟩, by decide +kernel, rfl, rfl⟩

theorem ansiStatus_eq_cons (status : NodeStatus) :
    ansiStatus status = esc :: (ansiStatus status).tail := by
  cases status <;> rfl

theorem esc_not_mem_statusWord (status : NodeStatus) : esc ∉ statusWord status := by
  cases status <;> decide

theorem semicolon_not_mem_ansiStatus (status : NodeStatus) : 0x3b ∉ ansiStatus status := by
  cases status <;> decide

/-! ## One segment -/

/-- No replacement brings in an `ESC`. -/
theorem esc_not_mem_output {ps : List (Piece UInt8)}
    (hps : ∀ r, .token r ∈ ps → r ∈ textReplacements) (hcopied : .copied esc ∉ ps) :
    esc ∉ output ps := by
  intro h
  obtain ⟨p, hp, hmem⟩ := List.mem_flatMap.mp h
  cases p with
  | token r => exact row_esc r (hps r hp) hmem
  | copied c =>
    obtain rfl := List.mem_singleton.mp hmem
    exact hcopied hp

theorem noFontTag_of_esc_free {text : StdString} (h : esc ∉ text) :
    NoFontTag (pieces textReplacements text) := by
  intro r hr hfont
  have hrow := mem_rules_of_token textReplacements_proper text hr
  refine h ?_
  rw [← source_pieces textReplacements_proper text]
  exact mem_source_of_mem hr (row_fontTag r hrow hfont)

theorem copied_esc_not_mem {text : StdString} (h : esc ∉ text) :
    .copied esc ∉ pieces textReplacements text := by
  intro hmem
  refine h ?_
  rw [← source_pieces textReplacements_proper text]
  exact mem_source_of_mem hmem (List.mem_singleton_self esc)

/-- Text without escape codes is left without colour. -/
theorem untagged_of_esc_free {segment : StdString} (h : esc ∉ segment) : Untagged segment := by
  refine ⟨noFontTag_of_esc_free h, ?_⟩
  rw [processText_eq]
  exact esc_not_mem_output (fun r hr => mem_rules_of_token textReplacements_proper segment hr)
    (copied_esc_not_mem h)

/-- The scan is cut at the `ESC` of a status, whatever token the text in front of it could begin. -/
theorem pieces_append_ansiStatus (a : StdString) (status : NodeStatus) :
    pieces textReplacements (a ++ ansiStatus status) =
      pieces textReplacements a ++ pieces textReplacements (ansiStatus status) := by
  rw [ansiStatus_eq_cons status]
  exact pieces_append_cons textReplacements_proper startsOnly_esc a _

/-- **A status behind any text without escape codes** gets its pair of tags. -/
theorem tagged_append {a : StdString} (h : esc ∉ a) (status : NodeStatus) :
    Tagged status (a ++ ansiStatus status) := by
  obtain ⟨opening, closing, hansi, hopening, hclosing⟩ := pieces_ansiStatus status
  have hpieces := pieces_append_ansiStatus a status
  rw [hansi] at hpieces
  have hpair : output (.token opening :: ((statusWord status).map .copied ++ [.token closing])) =
      openingTag (statusColour status) ++ (statusWord status ++ closingTag) := by
    rw [← hopening, ← hclosing]
    show opening.newText ++ output (_ ++ _) = _
    rw [output_append, output_copied]
    show _ ++ (_ ++ (closing.newText ++ [])) = _
    rw [List.append_nil]
  have htext : processText (a ++ ansiStatus status) =
      output (pieces textReplacements a) ++ openingTag (statusColour status) ++
        statusWord status ++ closingTag := by
    rw [processText_eq, replace, hpieces, output_append, hpair]
    simp only [List.append_assoc]
  refine ⟨_, opening, closing, hpieces, noFontTag_of_esc_free h, hopening, hclosing, htext, ?_⟩
  rw [processText_eq]
  refine esc_not_mem_output (fun r hr => mem_rules_of_token textReplacements_proper _ hr) ?_
  rw [hpieces]
  intro hmem
  rcases List.mem_append.mp hmem with hmem | hmem
  · exact copied_esc_not_mem h hmem
  · have hesc : esc ∈ statusWord status := by simpa using hmem
    exact esc_not_mem_statusWord status hesc

/-! ## The segments of a message -/

/-- The segments of the line of a node. -/
theorem nodeSegments_line {e : NodeLogStatus} (h : esc ∉ e.name) :
    NodeSegments e.status (Delimited.getlines 0x3b (line ansiStatus e ++ [0x3b])) := by
  have hindent : esc ∉ List.replicate e.indent (0x20 : UInt8) := fun hm =>
    absurd (List.eq_of_mem_replicate hm) (by decide)
  have hcolon : esc ∉ bytes ": " := by decide
  have hfront : esc ∉ List.replicate e.indent 0x20 ++ e.name ++ bytes ": " := by
    simp only [List.mem_append, hindent, h, hcolon, or_false, not_false_eq_true]
  obtain ⟨parts, last, hparts, hline⟩ := Delimited.exists_getlines_append
    (semicolon_not_mem_ansiStatus e.status)
    (List.replicate e.indent 0x20 ++ e.name ++ bytes ": ")
  have hfree : ∀ part ∈ parts ++ [last], esc ∉ part := by
    intro part hpart hesc
    rw [← hparts] at hpart
    rcases List.mem_append.mp (Delimited.mem_of_mem_getlines hpart esc hesc) with hm | hm
    · exact hfront hm
    · exact absurd (List.mem_singleton.mp hm) (by decide)
  refine ⟨parts, last ++ ansiStatus e.status, hline, fun part hpart => ?_, ?_⟩
  · exact untagged_of_esc_free (hfree part (List.mem_append_left _ hpart))
  · exact tagged_append (hfree last (List.mem_append_right _ List.mem_cons_self)) e.status

/-- **Status colours are right and never bleed.**  Whatever statuses `st` a logger shows for a tree
    whose node names contain no `ESC`: the message that `callback` publishes for a status change is
    cut by the widget into the segments of the nodes, in tree order.  Of the segments of a node,
    only the last gets font tags from `process_text`: one pair, in the colour of the status, around
    exactly the status word.  No `ESC` is left. -/
theorem status_colours {t : TreeNode} {st : UInt16 → NodeStatus} {lg : DRTBehaviorBtcppLogger}
    (hlg : Shows lg t st) (hesc : ∀ name ∈ t.names, esc ∉ name) (uid : UInt16)
    {prev status : NodeStatus} (hpub : ¬ (prev = .success ∧ status = .idle))
    (w : BehaviorTreeWidget) :
    ∃ m, (callback ansiStatus uid prev status lg).published = lg.published ++ [m] ∧
      ∃ groups : List (List StdString), (btStatusCallback m w).btText = groups.flatten ∧
        List.Forall₂ NodeSegments
          ((display t (Function.update st uid status)).map (·.status)) groups := by
  obtain ⟨-, hm⟩ := callback_of_not_swallowed hlg ansiStatus uid hpub
  refine ⟨_, hm, (display t (Function.update st uid status)).map fun e =>
    Delimited.getlines 0x3b (line ansiStatus e ++ [0x3b]), ?_, ?_⟩
  · rw [render_eq_terminated, lines]
    refine (Delimited.getlines_terminated_eq _).trans ?_
    rw [List.flatMap_map]
    exact List.flatMap_def
  · rw [List.forall₂_map_left_iff, List.forall₂_map_right_iff, List.forall₂_same]
    intro e he
    obtain ⟨item, hitem, rfl⟩ := List.mem_map.mp he
    refine nodeSegments_line (hesc item.2.2 ?_)
    rw [names_eq]
    exact List.mem_map_of_mem hitem

/-- A name that ends in three of the four spaces of a token, and one with a `;` and a `<font>`. -/
theorem status_colours_names :
    let t : TreeNode := .control 1 (bytes "│  ") [.leaf 2 (bytes "a;<font>   ")]
    ∃ m, (callback ansiStatus 2 .idle .running (create t)).published = (create t).published ++ [m] ∧
      ∃ groups : List (List StdString), (btStatusCallback m initial).btText = groups.flatten ∧
        List.Forall₂ NodeSegments [.idle, .running] groups := by
  intro t
  have hnd : t.uids.Nodup := by decide
  exact status_colours (shows_create hnd) (by decide) 2 (by decide) initial

end BehaviorTreeWidget

end DrtBehavior
