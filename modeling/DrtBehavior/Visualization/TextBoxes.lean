import DrtBehavior.Visualization.Attribution
import DrtBehavior.Visualization.FaithfulText

/-!
# The two text boxes

The plain text of the whole HTML the widget puts into the tree's box and into the log box: the lines
with a `<br/>` between them, inside a `<pre>`.

* `joinProcessed_eq_processText` — processing the lines one by one is processing the joined text.
* `boxText_iff` — a box is read as its lines are meant iff no line has a `<` or a character
  reference: at the latest the `</pre>` ends the tag a `<` starts.
* `text_boxes_of_run` — what the two boxes hold and how they are read, after every run.
-/

set_option autoImplicit false

namespace DrtBehavior

namespace BehaviorTreeWidget

open EventMachine Substitution Markup

variable {E : Entities}

/-! ## The joined text -/

/-- The lines with a line end between them. -/
def joinLines (lines : List StdString) : StdString := (bytes "\n").intercalate lines

theorem startsOnly_newline : StartsOnly textReplacements newline ∧ StartsOnly readings newline ∧
    StartsOnly textReplacements 0x1b ∧ StartsOnly readings 0x1b := by
  decide +kernel

theorem processText_newline (a rest : StdString) :
    processText (a ++ newline :: rest) = processText a ++ (bytes "<br/>" ++ processText rest) := by
  simp only [processText_eq]
  exact replace_append_token (r := ⟨bytes "\n", bytes "<br/>"⟩) textReplacements_proper
    textReplacements_prefixFree (by decide)
    (fun x hx => by cases hx; exact startsOnly_newline.1) a rest

theorem processText_endColor (a : StdString) :
    processText (a ++ endColor) = processText a ++ bytes "</font>" := by
  have h := replace_append_token (r := ⟨endColor, bytes "</font>"⟩) textReplacements_proper
    textReplacements_prefixFree (by decide)
    (fun x hx => by cases hx; exact startsOnly_newline.2.2.1) a []
  have hnil : replace textReplacements [] = [] := rfl
  simpa only [processText_eq, List.append_nil, hnil] using h

theorem faithfulText_newline (a rest : StdString) :
    faithfulText (a ++ newline :: rest) = faithfulText a ++ (bytes "\n" ++ faithfulText rest) :=
  replace_append_token (r := ⟨bytes "\n", bytes "\n"⟩) readings_proper readings_prefixFree
    (by decide) (fun x hx => by cases hx; exact startsOnly_newline.2.1) a rest

theorem faithfulText_endColor (a : StdString) : faithfulText (a ++ endColor) = faithfulText a := by
  have h := replace_append_token (r := ⟨endColor, []⟩) readings_proper readings_prefixFree
    (by decide) (fun x hx => by cases hx; exact startsOnly_newline.2.2.2) a []
  simpa only [faithfulText, List.append_nil, show replace readings [] = [] from rfl] using h

theorem joinLines_cons_cons (line next : StdString) (lines : List StdString) :
    joinLines (line :: next :: lines) = line ++ newline :: joinLines (next :: lines) := by
  rw [joinLines, List.intercalate_cons_cons, List.append_assoc]
  rfl

/-- **Line by line or at once.** -/
theorem joinProcessed_eq_processText : ∀ lines : List StdString,
    joinProcessed lines = processText (joinLines lines)
  | [] => by
    rw [joinProcessed_eq, processText_eq]
    rfl
  | [line] => by simp [joinProcessed_eq, joinLines]
  | line :: next :: lines => by
    rw [joinLines_cons_cons, processText_newline, ← joinProcessed_eq_processText (next :: lines),
      joinProcessed_eq, joinProcessed_eq, List.map_cons, List.map_cons, List.intercalate_cons_cons,
      List.append_assoc]

theorem faithfulText_joinLines : ∀ lines : List StdString,
    faithfulText (joinLines lines) = joinLines (lines.map faithfulText)
  | [] => rfl
  | [line] => by simp [joinLines]
  | line :: next :: lines => by
    rw [joinLines_cons_cons, faithfulText_newline, faithfulText_joinLines (next :: lines),
      List.map_cons, List.map_cons, List.map_cons, joinLines_cons_cons]
    rfl

/-! ## What is hidden in a box -/

/-- No `<`, and no `&` that starts a character reference. -/
def MarkupFree (E : Entities) (text : StdString) : Prop := lt ∉ text ∧ NoReference E text

theorem markupFree_joinLines : ∀ lines : List StdString,
    MarkupFree E (joinLines lines) ↔ ∀ line ∈ lines, MarkupFree E line
  | [] => iff_of_true ⟨List.not_mem_nil, trivial⟩ fun _ hl => by cases hl
  | [line] => by simp [joinLines]
  | line :: next :: lines => by
    have hnext := markupFree_joinLines (next :: lines)
    have href := noReference_append_cons (E := E) (x := newline) (by decide) (by decide) (by decide)
      line (joinLines (next :: lines))
    rw [List.forall_mem_cons, ← hnext, joinLines_cons_cons, MarkupFree, MarkupFree, MarkupFree,
      href, List.mem_append, List.mem_cons, not_or, not_or]
    have hne : lt ≠ newline := by decide
    tauto

/-- In front of the end of a colour, every `<` starts a tag. -/
theorem nothingHidden_endColor (text : StdString) :
    NothingHidden E (text ++ endColor) ↔ MarkupFree E text := by
  induction text with
  | nil =>
    have hfree : NothingHidden E ([] ++ endColor) :=
      (nothingHidden_append (a := endColor) (by decide) (by decide) []).mpr trivial
    exact iff_of_true hfree ⟨List.not_mem_nil, trivial⟩
  | cons c cs ih =>
    have hends : EndsTag (cs ++ endColor) :=
      .inr ⟨endColor, by decide, List.suffix_append cs endColor |>.isInfix⟩
    have href : E.reference (cs ++ endColor) = E.reference cs :=
      reference_append_cons (x := 0x1b) (by decide) (by decide) cs _
    rw [List.cons_append, NothingHidden, ih, href, MarkupFree, MarkupFree, NoReference,
      List.mem_cons, not_or]
    simp only [hends, not_true_eq_false, imp_false]
    rw [eq_comm (a := c)]
    tauto

/-- **Exactly which boxes are read as their lines are meant**, whatever tag opens them. -/
theorem boxText_iff (opening : StdString) (hopening : gt ∉ opening) (hbr : tagText opening = [])
    (lines : List StdString) :
    plainText E (lt :: (opening ++ [gt]) ++ joinProcessed lines ++ bytes "</pre>") =
        joinLines (lines.map faithfulText) ↔ ∀ line ∈ lines, MarkupFree E line := by
  have hopen := plainText_tag (E := E) hopening (joinProcessed lines ++ bytes "</pre>")
  have hclose : plainText E (joinProcessed lines ++ bytes "</pre>") =
      plainText E (joinProcessed lines ++ bytes "</font>") :=
    plainText_closing (bytes "/pre") (bytes "/font") (by decide) (by decide) (by decide)
      (joinProcessed lines)
  rw [hbr, List.nil_append, hclose, joinProcessed_eq_processText, ← processText_endColor] at hopen
  rw [← markupFree_joinLines, ← nothingHidden_endColor, ← plainText_processText_iff,
    faithfulText_endColor, faithfulText_joinLines, ← hopen, joinProcessed_eq_processText]
  simp

/-! ## The boxes after a run -/

/-- The line of the log an event adds. -/
def logLine : Attribution.Event → Option StdString
  | .result _ _ returnMessage seconds =>
    some (bytes "[" ++ seconds ++ bytes "] " ++ (bytes "Tree result: " ++ returnMessage))
  | _ => none

/-- The lines an event puts into the tree's box. -/
def statusLines : Attribution.Event → Option (List StdString)
  | .statusReceived msg => some (Delimited.getlines 0x3b msg)
  | _ => none

/-- What an event does to the two boxes. -/
theorem boxes_step {s s' : Attribution.Session} {e : Attribution.Event}
    (hs : Attribution.step s e = some s') :
    s'.widget.log = s.widget.log ++ (logLine e).toList ∧
      s'.widget.btText = (statusLines e).getD s.widget.btText := by
  cases e with
  | pressUpdateTrees => cases hs; exact ⟨(List.append_nil _).symm, rfl⟩
  | treesReceived treeIds => cases hs; exact ⟨(List.append_nil _).symm, rfl⟩
  | select i =>
    obtain ⟨box, _, rfl⟩ := Option.map_eq_some_iff.mp hs
    exact ⟨(List.append_nil _).symm, rfl⟩
  | pressRun =>
    simp only [Attribution.step] at hs
    split at hs
    · cases hs
    all_goals
      rename_i hw
      cases hs
      rcases onRunButtonPressed_ok hw with ⟨_, rfl⟩ | ⟨_, _, rfl⟩ <;>
        exact ⟨(List.append_nil _).symm, rfl⟩
  | pressStop => cases hs; exact ⟨(List.append_nil _).symm, rfl⟩
  | statusReceived msg => cases hs; exact ⟨(List.append_nil _).symm, rfl⟩
  | goalResponse g accepted =>
    obtain ⟨tree, _, rfl⟩ := Attribution.step_goalResponse hs
    rw [goalResponseCallback]
    split <;> exact ⟨(List.append_nil _).symm, rfl⟩
  | result g code returnMessage seconds =>
    obtain ⟨tree, _, rfl⟩ := Attribution.step_result hs
    exact ⟨rfl, rfl⟩

theorem boxes_run {s s' : Attribution.Session} {es : List Attribution.Event}
    (hr : run Attribution.step s es = some s') :
    s'.widget.log = s.widget.log ++ es.filterMap logLine ∧
      s'.widget.btText = ((es.filterMap statusLines).getLast?).getD s.widget.btText := by
  induction es generalizing s with
  | nil =>
    cases hr
    exact ⟨(List.append_nil _).symm, rfl⟩
  | cons e es ih =>
    obtain ⟨t, hs, hr'⟩ := Option.bind_eq_some_iff.mp hr
    obtain ⟨hlog, hstatus⟩ := boxes_step hs
    obtain ⟨hlog', hstatus'⟩ := ih hr'
    refine ⟨?_, ?_⟩
    · rw [hlog', hlog]
      cases hl : logLine e <;> simp [hl]
    · rw [hstatus', hstatus]
      cases hl : statusLines e <;> simp [hl, List.getLast?_cons]

/-- **The two boxes after a run.**  After every run of the widget the log has one line for each
    result handled, in order, and the tree's box the lines of the last status message; and each box
    is read as these lines are meant if and only if none of them has a `<` or starts a character
    reference. -/
theorem text_boxes_of_run (E : Entities) (es : List Attribution.Event) (s : Attribution.Session)
    (hr : run Attribution.step Attribution.Session.initial es = some s) :
    s.widget.log = es.filterMap logLine ∧
      s.widget.btText = ((es.filterMap statusLines).getLast?).getD [] ∧
      (plainText E (updateLogText s.widget) = joinLines (s.widget.log.map faithfulText) ↔
        ∀ line ∈ s.widget.log, MarkupFree E line) ∧
      (plainText E (updateBtText s.widget) = joinLines (s.widget.btText.map faithfulText) ↔
        ∀ line ∈ s.widget.btText, MarkupFree E line) := by
  obtain ⟨hlog, hstatus⟩ := boxes_run hr
  refine ⟨hlog, hstatus, ?_, ?_⟩
  · exact boxText_iff (bytes "pre style='white-space: pre-wrap;'") (by decide)
      (by decide) s.widget.log
  · exact boxText_iff (bytes "pre") (by decide) (by decide) s.widget.btText

/-- A tree that fails with the name of a template type in its message. -/
theorem text_boxes_of_run_template :
    let es : List Attribution.Event := [.treesReceived [bytes "pick"], .pressRun,
      .goalResponse 0 true, .statusReceived (bytes "Plan<2>: RUNNING;"),
      .result 0 .aborted (bytes "bad std::vector<double>") (bytes "1.0")]
    ∃ s, run Attribution.step Attribution.Session.initial es = some s ∧
      s.widget.log = es.filterMap logLine ∧
      s.widget.btText = ((es.filterMap statusLines).getLast?).getD [] ∧
      (plainText basicEntities (updateLogText s.widget) =
          joinLines (s.widget.log.map faithfulText) ↔
        ∀ line ∈ s.widget.log, MarkupFree basicEntities line) ∧
      (plainText basicEntities (updateBtText s.widget) =
          joinLines (s.widget.btText.map faithfulText) ↔
        ∀ line ∈ s.widget.btText, MarkupFree basicEntities line) := by
  intro es
  exact ⟨_, rfl, text_boxes_of_run basicEntities es _ rfl⟩

end BehaviorTreeWidget

end DrtBehavior
