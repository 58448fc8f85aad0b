import DrtBehavior.Base.Occurrence
import DrtBehavior.Visualization.FaithfulText
import DrtBehavior.Visualization.StatusColours

/-!
# Auto-scroll of the behavior tree

After setting the HTML, `update_bt_text` looks for the last node that is not idle: it searches the
plain text, ignoring case, for the words of the other four statuses.

* `Qt` — the case folding and the conversion of strings that the search rests on.
* `autoScroll` — the position the text cursor is moved to, if it is.
* `displayedText` — the plain text: one line per node, with indentation, name and status word.
* `scrolls_to_last_iff` — the cursor goes to the last node that is not idle iff no idle node behind
  it has one of the words in its name: `idle_name_caught`.
* `plainText_eq_displayedText` — the displayed text is what the widget makes of the message.
-/

set_option autoImplicit false

namespace DrtBehavior

namespace AutoScroll

open Occurrence Substitution BehaviorTreeWidget DRTBehaviorBtcppLogger

/-- A `QString` is its list of UTF-16 code units. -/
abbrev QString := List UInt16

def ascii (s : StdString) : QString := s.map UInt8.toUInt16

def space : UInt16 := 0x20
def colon : UInt16 := 0x3a
def newline : UInt16 := 0x0a

/-- `searchTerms`. -/
def searchTerms : List QString :=
  [ascii (bytes "SUCCESS"), ascii (bytes "FAILURE"), ascii (bytes "RUNNING"),
    ascii (bytes "SKIPPED")]

/-- What the widget uses of Qt: the case folding of a code unit, which keeps spaces, colons and line
    ends apart from letters, and `QString::fromStdString`. -/
structure Qt where
  fold : UInt16 → UInt16
  fromStdString : StdString → QString
  apart : ∀ s ∈ [space, colon, newline], ∀ term ∈ searchTerms, fold s ∉ term.map fold

variable (Q : Qt)

/-- `fullText.lastIndexOf(term, -1, Qt::CaseInsensitive)`. -/
def lastIndexOf (term fullText : QString) : Int :=
  match lastIndex (term.map Q.fold) (fullText.map Q.fold) with
  | some i => i
  | none => -1

/-- The loop over `searchTerms`. -/
def overallLastIndex (fullText : QString) : Int :=
  searchTerms.foldl (fun overall term =>
    if overall < lastIndexOf Q term fullText then lastIndexOf Q term fullText else overall) (-1)

/-- The auto-scroll of `update_bt_text`: the position given to `setPosition`, if there is one.
    `checked` is the state of `AutoScrollBehaviorTree`. -/
def autoScroll (checked : Bool) (fullText : QString) : Option Nat :=
  if checked then
    if overallLastIndex Q fullText ≠ -1 then some (overallLastIndex Q fullText).toNat else none
  else none

/-! ## The displayed text -/

/-- The line of a node in front of the status word. -/
def lineFront (e : NodeLogStatus) : QString :=
  List.replicate e.indent space ++ (Q.fromStdString e.name ++ [colon, space])

def plainLine (e : NodeLogStatus) : QString := lineFront Q e ++ ascii (statusWord e.status)

/-- Lines, each behind a line end. -/
def furtherLines (es : List NodeLogStatus) : QString :=
  es.flatMap fun e => newline :: plainLine Q e

/-- The plain text of the tree. -/
def displayedText : List NodeLogStatus → QString
  | [] => []
  | e :: es => plainLine Q e ++ furtherLines Q es

/-- The text in front of the line of the next node. -/
def textBefore (front : List NodeLogStatus) : QString :=
  front.flatMap fun e => plainLine Q e ++ [newline]

/-- The position is in the line of `e`, which is displayed behind `front`. -/
def InLine (front : List NodeLogStatus) (e : NodeLogStatus) (p : Nat) : Prop :=
  (textBefore Q front).length ≤ p ∧ p ≤ (textBefore Q front).length + (plainLine Q e).length

/-- The cursor goes into the line of the last node that is not idle; if all are, it stays. -/
def ScrollsToLast (es : List NodeLogStatus) (cursor : Option Nat) : Prop :=
  (∀ front e back, es = front ++ e :: back → e.status ≠ .idle → (∀ x ∈ back, x.status = .idle) →
    ∃ p, cursor = some p ∧ InLine Q front e p) ∧
  ((∀ e ∈ es, e.status = .idle) → cursor = none)

/-- One of the four words occurs in the text, ignoring case. -/
def Mentions (x : QString) : Prop :=
  ∃ term ∈ searchTerms, term.map Q.fold <:+: x.map Q.fold

/-- No name of the nodes has one of the four words in it. -/
def SilentNames (es : List NodeLogStatus) : Prop := ∀ e ∈ es, ¬ Mentions Q (Q.fromStdString e.name)

theorem displayedText_append (e : NodeLogStatus) (back : List NodeLogStatus) :
    ∀ front, displayedText Q (front ++ e :: back) =
      textBefore Q front ++ (plainLine Q e ++ furtherLines Q back)
  | [] => rfl
  | x :: front => by
    have hfurther : furtherLines Q (front ++ e :: back) =
        newline :: displayedText Q (front ++ e :: back) := by
      cases front <;> rfl
    rw [List.cons_append, displayedText, hfurther, displayedText_append e back front]
    simp [textBefore]

/-! ## The search -/

theorem term_ne_nil {term : QString} (h : term ∈ searchTerms) : term.map Q.fold ≠ [] := by
  have hlen : ∀ term ∈ searchTerms, term.length ≠ 0 := by decide
  intro hnil
  have := congrArg List.length hnil
  rw [List.length_map] at this
  exact hlen term h this

theorem statusWord_mem {status : NodeStatus} (h : status ≠ .idle) :
    ascii (statusWord status) ∈ searchTerms := by
  cases status with
  | idle => exact absurd rfl h
  | success => decide
  | failure => decide
  | running => decide
  | skipped => decide

/-- The loop keeps the largest value. -/
theorem foldl_largest (f : QString → Int) (terms : List QString) : ∀ best : Int,
    let largest := terms.foldl (fun overall term =>
      if overall < f term then f term else overall) best
    best ≤ largest ∧ (∀ term ∈ terms, f term ≤ largest) ∧
      (largest = best ∨ ∃ term ∈ terms, largest = f term) := by
  induction terms with
  | nil => exact fun best => ⟨Int.le_refl best, nofun, .inl rfl⟩
  | cons term terms ih =>
    intro best
    obtain ⟨hbest, hall, hsome⟩ := ih (if best < f term then f term else best)
    refine ⟨?_, fun t ht => ?_, ?_⟩
    · refine Int.le_trans ?_ hbest
      split <;> omega
    · rcases List.mem_cons.mp ht with rfl | ht
      · refine Int.le_trans ?_ hbest
        split <;> omega
      · exact hall t ht
    · rcases hsome with hsome | ⟨t, ht, hsome⟩
      · rw [List.foldl_cons, hsome]
        split
        · exact .inr ⟨term, List.mem_cons_self, rfl⟩
        · exact .inl rfl
      · exact .inr ⟨t, List.mem_cons_of_mem term ht, hsome⟩

theorem lastIndexOf_cases {term : QString} (hterm : term ∈ searchTerms) (x : QString) :
    (lastIndexOf Q term x = -1 ∧ ∀ i, ¬ OccursAt (term.map Q.fold) (x.map Q.fold) i) ∨
      ∃ i : Nat, lastIndexOf Q term x = i ∧ OccursAt (term.map Q.fold) (x.map Q.fold) i ∧
        ∀ j, OccursAt (term.map Q.fold) (x.map Q.fold) j → j ≤ i := by
  unfold lastIndexOf
  rcases lastIndex_cases (term_ne_nil Q hterm) (x.map Q.fold) with
    ⟨hnone, hno⟩ | ⟨i, hsome, hocc, hmax⟩
  · rw [hnone]
    exact .inl ⟨rfl, hno⟩
  · rw [hsome]
    exact .inr ⟨i, rfl, hocc, hmax⟩

/-- **Everything the search can find**: nothing, or the last occurrence of any of the words. -/
theorem overallLastIndex_cases (x : QString) :
    (overallLastIndex Q x = -1 ∧ ¬ Mentions Q x) ∨
      ∃ p : Nat, overallLastIndex Q x = p ∧
        (∃ term ∈ searchTerms, OccursAt (term.map Q.fold) (x.map Q.fold) p) ∧
        ∀ term ∈ searchTerms, ∀ j, OccursAt (term.map Q.fold) (x.map Q.fold) j → j ≤ p := by
  obtain ⟨-, hall, hsome⟩ := foldl_largest (lastIndexOf Q · x) searchTerms (-1)
  change ∀ term ∈ searchTerms, lastIndexOf Q term x ≤ overallLastIndex Q x at hall
  change overallLastIndex Q x = -1 ∨ ∃ term ∈ searchTerms,
    overallLastIndex Q x = lastIndexOf Q term x at hsome
  by_cases hnone : overallLastIndex Q x = -1
  · refine .inl ⟨hnone, ?_⟩
    rintro ⟨term, hterm, hin⟩
    obtain ⟨i, hi⟩ := exists_occursAt_iff.mpr hin
    have hle := hall term hterm
    rcases lastIndexOf_cases Q hterm x with ⟨-, hno⟩ | ⟨k, hk, -⟩
    · exact hno i hi
    · omega
  · obtain ⟨term, hterm, hlargest⟩ := hsome.resolve_left hnone
    rcases lastIndexOf_cases Q hterm x with ⟨hno, -⟩ | ⟨p, hp, hocc, -⟩
    · exact absurd (hlargest.trans hno) hnone
    · refine .inr ⟨p, hlargest.trans hp, ⟨term, hterm, hocc⟩, fun term' hterm' j hj => ?_⟩
      have hle := hall term' hterm'
      rcases lastIndexOf_cases Q hterm' x with ⟨-, hno⟩ | ⟨k, hk, -, hmax⟩
      · exact absurd hj (hno j)
      · have := hmax j hj
        omega

/-- The cursor stays iff none of the words is in the text. -/
theorem autoScroll_eq_none_iff (x : QString) : autoScroll Q true x = none ↔ ¬ Mentions Q x := by
  unfold autoScroll
  rcases overallLastIndex_cases Q x with ⟨hnone, hno⟩ | ⟨p, hp, ⟨term, hterm, hocc⟩, -⟩
  · rw [hnone]
    exact iff_of_true rfl hno
  · have hne : overallLastIndex Q x ≠ -1 := by omega
    rw [if_pos rfl, if_pos hne]
    exact iff_of_false (fun h => (by cases h))
      (not_not_intro ⟨term, hterm, exists_occursAt_iff.mp ⟨p, hocc⟩⟩)

/-- Otherwise it goes to the last occurrence of any of them. -/
theorem autoScroll_of_mentions {x : QString} (h : Mentions Q x) :
    ∃ p, autoScroll Q true x = some p ∧
      (∃ term ∈ searchTerms, OccursAt (term.map Q.fold) (x.map Q.fold) p) ∧
      ∀ term ∈ searchTerms, ∀ j, OccursAt (term.map Q.fold) (x.map Q.fold) j → j ≤ p := by
  rcases overallLastIndex_cases Q x with ⟨-, hno⟩ | ⟨p, hp, hocc, hmax⟩
  · exact absurd h hno
  · refine ⟨p, ?_, hocc, hmax⟩
    have hne : overallLastIndex Q x ≠ -1 := by omega
    rw [autoScroll, if_pos rfl, if_pos hne, hp, Int.toNat_natCast]

/-! ## Where the words are -/

/-- In the line of an idle node only the name can have one of the words in it. -/
theorem mentions_plainLine_iff {e : NodeLogStatus} (h : e.status = .idle) :
    Mentions Q (plainLine Q e) ↔ Mentions Q (Q.fromStdString e.name) := by
  have hline : (plainLine Q e).map Q.fold = List.replicate e.indent (Q.fold space) ++
      ((Q.fromStdString e.name).map Q.fold ++ Q.fold colon ::
        ([] ++ Q.fold space :: (ascii (statusWord .idle)).map Q.fold)) := by
    simp [plainLine, lineFront, h]
  have hlong : ∀ term ∈ searchTerms, (ascii (statusWord .idle)).length < term.length := by decide
  refine exists_congr fun term => and_congr_right fun hterm => ?_
  have hne := term_ne_nil Q hterm
  have hidle : ¬ term.map Q.fold <:+: (ascii (statusWord .idle)).map Q.fold := fun hin => by
    have hle := hin.length_le
    rw [List.length_map, List.length_map] at hle
    have := hlong term hterm
    omega
  have hspace : Q.fold space ∉ term.map Q.fold := Q.apart _ (by decide) term hterm
  have hcolon : Q.fold colon ∉ term.map Q.fold := Q.apart _ (by decide) term hterm
  rw [hline, infix_replicate_append_iff hne hspace, infix_append_cons_iff hne hcolon,
    infix_append_cons_iff hne hspace]
  simp only [hidle, not_infix_nil hne, or_false]

/-- Among idle nodes, the words are in the displayed lines iff they are in the names. -/
theorem mentions_lines_iff {es : List NodeLogStatus} (h : ∀ e ∈ es, e.status = .idle) :
    (∃ e ∈ es, Mentions Q (plainLine Q e)) ↔ ¬ SilentNames Q es := by
  unfold SilentNames
  simp only [not_forall, not_not, exists_prop]
  exact exists_congr fun e => and_congr_right fun he => mentions_plainLine_iff Q (h e he)

theorem mentions_append_furtherLines (x : QString) (es : List NodeLogStatus) :
    Mentions Q (x ++ furtherLines Q es) ↔ Mentions Q x ∨ ∃ e ∈ es, Mentions Q (plainLine Q e) := by
  have hmap : (x ++ furtherLines Q es).map Q.fold = x.map Q.fold ++
      (es.map fun e => (plainLine Q e).map Q.fold).flatMap (Q.fold newline :: ·) := by
    simp [furtherLines, List.map_flatMap, List.flatMap_map]
  have hterm : ∀ term ∈ searchTerms, (term.map Q.fold <:+: (x ++ furtherLines Q es).map Q.fold ↔
      term.map Q.fold <:+: x.map Q.fold ∨
        ∃ e ∈ es, term.map Q.fold <:+: (plainLine Q e).map Q.fold) := by
    intro term hterm
    rw [hmap, infix_join_iff (term_ne_nil Q hterm) (Q.apart _ (by decide) term hterm)]
    simp
  constructor
  · rintro ⟨term, ht, hin⟩
    rcases (hterm term ht).mp hin with hin | ⟨e, he, hin⟩
    · exact .inl ⟨term, ht, hin⟩
    · exact .inr ⟨e, he, term, ht, hin⟩
  · rintro (⟨term, ht, hin⟩ | ⟨e, he, term, ht, hin⟩)
    · exact ⟨term, ht, (hterm term ht).mpr (.inl hin)⟩
    · exact ⟨term, ht, (hterm term ht).mpr (.inr ⟨e, he, hin⟩)⟩

theorem not_mentions_nil : ¬ Mentions Q [] := by
  rintro ⟨term, hterm, hin⟩
  exact not_infix_nil (term_ne_nil Q hterm) hin

theorem mentions_displayedText (es : List NodeLogStatus) :
    Mentions Q (displayedText Q es) ↔ ∃ e ∈ es, Mentions Q (plainLine Q e) := by
  cases es with
  | nil => simp [displayedText, not_mentions_nil]
  | cons e es =>
    rw [displayedText, mentions_append_furtherLines]
    simp

theorem mentions_furtherLines (es : List NodeLogStatus) :
    Mentions Q (furtherLines Q es) ↔ ∃ e ∈ es, Mentions Q (plainLine Q e) := by
  have h := mentions_append_furtherLines Q [] es
  rw [List.nil_append] at h
  rw [h]
  exact or_iff_right (not_mentions_nil Q)

/-- Further lines start with a line end, so no word starts there. -/
theorem not_occursAt_furtherLines {term : QString} (hterm : term ∈ searchTerms)
    (es : List NodeLogStatus) :
    ¬ OccursAt (term.map Q.fold) ((furtherLines Q es).map Q.fold) 0 := by
  intro h
  cases es with
  | nil => exact term_ne_nil Q hterm (List.prefix_nil.mp h)
  | cons e es =>
    have hpre : term.map Q.fold <+: [] ++ Q.fold newline ::
        (plainLine Q e ++ furtherLines Q es).map Q.fold := h
    rw [prefix_append_cons_iff (Q.apart _ (by decide) term hterm)] at hpre
    exact term_ne_nil Q hterm (List.prefix_nil.mp hpre)

/-! ## Where the cursor goes -/

section

variable (front : List NodeLogStatus) (e : NodeLogStatus) (back : List NodeLogStatus)

/-- The status word of a node is in the text, behind the front of its line. -/
theorem occursAt_statusWord :
    OccursAt ((ascii (statusWord e.status)).map Q.fold)
      ((displayedText Q (front ++ e :: back)).map Q.fold)
      ((textBefore Q front).length + (lineFront Q e).length) := by
  have h := occursAt_self ((textBefore Q front ++ lineFront Q e).map Q.fold)
    ((ascii (statusWord e.status)).map Q.fold) ((furtherLines Q back).map Q.fold)
  rw [List.length_map, List.length_append] at h
  rw [displayedText_append Q e back front, plainLine]
  simpa only [List.map_append, List.append_assoc] using h

/-- An occurrence behind the line of a node is one in the further lines. -/
theorem occursAt_behind_iff (w : QString) (j : Nat) :
    OccursAt w ((displayedText Q (front ++ e :: back)).map Q.fold)
        ((textBefore Q front).length + (plainLine Q e).length + j) ↔
      OccursAt w ((furtherLines Q back).map Q.fold) j := by
  have h := occursAt_append (w := w) (b := (furtherLines Q back).map Q.fold)
    ((textBefore Q front ++ plainLine Q e).map Q.fold) (j := j)
  rw [List.length_map, List.length_append] at h
  rw [displayedText_append Q e back front, ← h]
  simp only [List.map_append, List.append_assoc]

end

/-- Behind the line of a node that is not idle: the cursor is in the line iff none of the words
    comes later. -/
theorem inLine_iff {e : NodeLogStatus} (he : e.status ≠ .idle) (front back : List NodeLogStatus) :
    (∃ p, autoScroll Q true (displayedText Q (front ++ e :: back)) = some p ∧ InLine Q front e p) ↔
      ∀ x ∈ back, ¬ Mentions Q (plainLine Q x) := by
  have hword : ascii (statusWord e.status) ∈ searchTerms := statusWord_mem he
  have hself := occursAt_statusWord Q front e back
  obtain ⟨p, hp, ⟨term, hterm, hocc⟩, hmax⟩ := autoScroll_of_mentions Q
    ⟨_, hword, exists_occursAt_iff.mp ⟨_, hself⟩⟩
  have hstart := hmax _ hword _ hself
  have hline : (plainLine Q e).length = (lineFront Q e).length +
      (ascii (statusWord e.status)).length := by rw [plainLine, List.length_append]
  constructor
  · rintro ⟨p', hp', -, hend⟩ x hx hmention
    obtain rfl : p = p' := Option.some.inj (hp.symm.trans hp')
    obtain ⟨t, ht, hin⟩ := (mentions_furtherLines Q back).mpr ⟨x, hx, hmention⟩
    obtain ⟨j, hj⟩ := exists_occursAt_iff.mpr hin
    have hle := hmax t ht _ ((occursAt_behind_iff Q front e back _ j).mpr hj)
    obtain rfl : j = 0 := by omega
    exact not_occursAt_furtherLines Q ht back hj
  · intro hsilent
    refine ⟨p, hp, by omega, ?_⟩
    by_contra hbeyond
    obtain ⟨j, rfl⟩ := Nat.exists_eq_add_of_le (show (textBefore Q front).length +
      (plainLine Q e).length ≤ p by omega)
    have hin := exists_occursAt_iff.mp ⟨j, (occursAt_behind_iff Q front e back _ j).mp hocc⟩
    obtain ⟨x, hx, hmention⟩ := (mentions_furtherLines Q back).mp ⟨term, hterm, hin⟩
    exact hsilent x hx hmention

/-- All nodes are idle, or there is a last one that is not. -/
theorem idle_or_last (es : List NodeLogStatus) : (∀ e ∈ es, e.status = .idle) ∨
    ∃ front e back, es = front ++ e :: back ∧ e.status ≠ .idle ∧ ∀ x ∈ back, x.status = .idle := by
  induction es with
  | nil => exact .inl nofun
  | cons x es ih =>
    rcases ih with hidle | ⟨front, e, back, rfl, he, hback⟩
    · by_cases hx : x.status = .idle
      · exact .inl (List.forall_mem_cons.mpr ⟨hx, hidle⟩)
      · exact .inr ⟨[], x, es, rfl, hx, hidle⟩
    · exact .inr ⟨x :: front, e, back, rfl, he, hback⟩

/-- The idle nodes at the end are among those behind any node that is not idle. -/
theorem suffix_of_idle {front back idle : List NodeLogStatus} {e : NodeLogStatus}
    (he : e.status ≠ .idle) (hsuffix : idle <:+ front ++ e :: back)
    (hidle : ∀ x ∈ idle, x.status = .idle) : idle <:+ back := by
  rcases List.suffix_or_suffix_of_suffix hsuffix (List.suffix_append front (e :: back)) with h | h
  · rcases List.suffix_cons_iff.mp h with rfl | h
    · exact absurd (hidle e List.mem_cons_self) he
    · exact h
  · exact absurd (hidle e (h.subset List.mem_cons_self)) he

/-- The nodes of a list are displayed: the cursor goes where it should iff no idle node at the end
    has one of the words in its name. -/
theorem scrollsToLast_iff (es : List NodeLogStatus) :
    ScrollsToLast Q es (autoScroll Q true (displayedText Q es)) ↔
      ∀ idle, idle <:+ es → (∀ x ∈ idle, x.status = .idle) → SilentNames Q idle := by
  have hnone : (∀ e ∈ es, e.status = .idle) →
      (autoScroll Q true (displayedText Q es) = none ↔ SilentNames Q es) := by
    intro hidle
    rw [autoScroll_eq_none_iff, mentions_displayedText, mentions_lines_iff Q hidle, not_not]
  have hlines : ∀ back : List NodeLogStatus, (∀ x ∈ back, x.status = .idle) →
      ((∀ x ∈ back, ¬ Mentions Q (plainLine Q x)) ↔ SilentNames Q back) := by
    intro back hback
    rw [← not_iff_not, ← mentions_lines_iff Q hback]
    simp
  constructor
  · rintro ⟨hlast, hall⟩ idle hsuffix hidle
    rcases idle_or_last es with hes | ⟨front, e, back, rfl, he, hback⟩
    · have hsilent := (hnone hes).mp (hall hes)
      exact fun x hx => hsilent x (hsuffix.subset hx)
    · have hin := hlast front e back rfl he hback
      have hsilent := (hlines back hback).mp ((inLine_iff Q he front back).mp hin)
      exact fun x hx => hsilent x ((suffix_of_idle he hsuffix hidle).subset hx)
  · intro hsilent
    refine ⟨?_, fun hes => (hnone hes).mpr (hsilent es (List.suffix_refl es) hes)⟩
    rintro front e back rfl he hback
    have hsuffix : back <:+ front ++ e :: back :=
      (List.suffix_cons e back).trans (List.suffix_append front (e :: back))
    exact (inLine_iff Q he front back).mpr ((hlines back hback).mpr (hsilent back hsuffix hback))

/-- **Exactly when auto-scroll goes to the last node that is not idle.**  For every tree with
    arbitrary names and every assignment of statuses: if some node is not idle, the cursor is put
    inside the line of the last such node, and otherwise it stays, iff no node of the idle ones at
    the end of the display has one of the four words in its name, ignoring case. -/
theorem scrolls_to_last_iff (t : TreeNode) (st : UInt16 → NodeStatus) :
    ScrollsToLast Q (display t st) (autoScroll Q true (displayedText Q (display t st))) ↔
      ∀ idle, idle <:+ display t st → (∀ x ∈ idle, x.status = .idle) → SilentNames Q idle :=
  scrollsToLast_iff Q (display t st)

/-- Case folding of ASCII. -/
def asciiFold (c : UInt16) : UInt16 := if 0x41 ≤ c.toNat ∧ c.toNat ≤ 0x5a then c + 0x20 else c

theorem asciiFold_apart :
    ∀ s ∈ [space, colon, newline], ∀ term ∈ searchTerms, asciiFold s ∉ term.map asciiFold := by
  have hall : ([space, colon, newline].all fun s => searchTerms.all fun term =>
      !(term.map asciiFold).contains (asciiFold s)) = true := by decide +kernel
  simpa using hall

/-- Qt on ASCII texts. -/
def asciiQt : Qt := ⟨asciiFold, ascii, asciiFold_apart⟩

/-- A node that is running and behind it an idle one that is called `Check success`: the cursor goes
    to the idle one. -/
theorem idle_name_caught :
    let t : TreeNode := .control 1 (bytes "Sequence")
      [.leaf 2 (bytes "Grasp"), .leaf 3 (bytes "Check success")]
    let st : UInt16 → NodeStatus := fun uid => if uid = 3 then .idle else .running
    ¬ ScrollsToLast asciiQt (display t st)
        (autoScroll asciiQt true (displayedText asciiQt (display t st))) ∧
      ¬ ∀ (t : TreeNode) (st : UInt16 → NodeStatus),
        ScrollsToLast asciiQt (display t st)
          (autoScroll asciiQt true (displayedText asciiQt (display t st))) := by
  intro t st
  have hcaught : ¬ ScrollsToLast asciiQt (display t st)
      (autoScroll asciiQt true (displayedText asciiQt (display t st))) := by
    rw [scrollsToLast_iff]
    intro hsilent
    have hname := hsilent [⟨bytes "Check success", .idle, 1⟩]
      (by decide) (by decide) _ List.mem_cons_self
    exact hname ⟨ascii (bytes "SUCCESS"), by decide, by decide +kernel⟩
  exact ⟨hcaught, fun h => hcaught (h t st)⟩

/-! ## From the message to the displayed text -/

/-- A name that is shown as it is: no byte of it separates the lines of a message, is special in
    HTML or starts a token. -/
def PlainName (name : StdString) : Prop :=
  ∀ c ∈ name, c ∉ [Markup.semicolon, Markup.lt, Markup.ampersand] ∧
    ∀ r ∈ readings, r.oldText.head? ≠ some c

/-- The bytes of a displayed line. -/
def lineBytes (e : NodeLogStatus) : StdString :=
  List.replicate e.indent 0x20 ++ (e.name ++ (bytes ": " ++ statusWord e.status))

theorem faithfulText_line {e : NodeLogStatus} (h : PlainName e.name) :
    faithfulText (line ansiStatus e) = lineBytes e := by
  have hstatus : faithfulText (ansiStatus e.status) = statusWord e.status := by
    cases e.status <;> decide +kernel
  have hcopy : ∀ w rest : StdString, (∀ c ∈ w, ∀ r ∈ readings, r.oldText.head? ≠ some c) →
      faithfulText (w ++ rest) = w ++ faithfulText rest :=
    fun w rest hw => replace_append_of_head_ne readings_proper w rest hw
  have hindent : ∀ c ∈ List.replicate e.indent (0x20 : UInt8), ∀ r ∈ readings,
      r.oldText.head? ≠ some c := by
    intro c hc
    rw [List.eq_of_mem_replicate hc]
    decide +kernel
  have hcolon : ∀ c ∈ bytes ": ", ∀ r ∈ readings, r.oldText.head? ≠ some c := by decide +kernel
  rw [line, List.append_assoc, List.append_assoc, hcopy _ _ hindent,
    hcopy _ _ fun c hc => (h c hc).2, hcopy _ _ hcolon, hstatus]
  rfl

/-- The line of a node has what its name has. -/
theorem not_mem_line {e : NodeLogStatus} (h : PlainName e.name) {c : UInt8}
    (hc : c ∈ [Markup.semicolon, Markup.lt, Markup.ampersand]) : c ∉ line ansiStatus e := by
  have hindent : c ∉ List.replicate e.indent (0x20 : UInt8) := by
    intro hm
    rw [List.eq_of_mem_replicate hm] at hc
    exact absurd hc (by decide)
  have hcolon : ∀ c ∈ [Markup.semicolon, Markup.lt, Markup.ampersand], c ∉ bytes ": " := by
    decide +kernel
  have hstatus : ∀ c ∈ [Markup.semicolon, Markup.lt, Markup.ampersand],
      c ∉ ansiStatus e.status := by
    cases e.status <;> decide +kernel
  have hname : c ∉ e.name := fun hm => (h c hm).1 hc
  unfold line
  simp only [List.mem_append, hindent, hname, hcolon c hc, hstatus c hc, or_false,
    not_false_eq_true]

theorem ascii_append (x y : StdString) : ascii (x ++ y) = ascii x ++ ascii y := List.map_append

theorem plainLine_ascii (e : NodeLogStatus) : plainLine asciiQt e = ascii (lineBytes e) := by
  have hindent : ascii (List.replicate e.indent 0x20) = List.replicate e.indent space :=
    List.map_replicate
  rw [lineBytes, ascii_append, ascii_append, ascii_append, hindent, plainLine, lineFront,
    List.append_assoc, List.append_assoc]
  rfl

/-- The displayed lines, joined by line ends. -/
theorem displayedText_ascii : ∀ es : List NodeLogStatus,
    displayedText asciiQt es = ascii ((bytes "\n").intercalate (es.map lineBytes))
  | [] => rfl
  | [e] => by simp [displayedText, furtherLines, plainLine_ascii]
  | e :: next :: es => by
    have hrest : displayedText asciiQt (e :: next :: es) =
        plainLine asciiQt e ++ newline :: displayedText asciiQt (next :: es) := rfl
    have hnewline : ascii (bytes "\n") = [newline] := by decide
    rw [hrest, displayedText_ascii (next :: es), plainLine_ascii, List.map_cons, List.map_cons,
      List.map_cons, List.intercalate_cons_cons, ascii_append, ascii_append, hnewline,
      List.append_assoc]
    rfl

/-- **The text that is searched is the displayed one**, for names that are shown as they are: it is
    the plain text of what the widget makes of the message for a status change. -/
theorem plainText_eq_displayedText (E : Markup.Entities) {t : TreeNode} {st : UInt16 → NodeStatus}
    {lg : DRTBehaviorBtcppLogger} (hlg : Shows lg t st) (hplain : ∀ name ∈ t.names, PlainName name)
    (uid : UInt16) {prev status : NodeStatus} (hpub : ¬ (prev = .success ∧ status = .idle))
    (w : BehaviorTreeWidget) :
    ∃ m, (callback ansiStatus uid prev status lg).published = lg.published ++ [m] ∧
      ascii (Markup.plainText E (updateBtText (btStatusCallback m w))) =
        displayedText asciiQt (display t (Function.update st uid status)) := by
  obtain ⟨-, hm⟩ := callback_of_not_swallowed hlg ansiStatus uid hpub
  refine ⟨_, hm, ?_⟩
  generalize hes : display t (Function.update st uid status) = es
  have hnames : ∀ e ∈ es, PlainName e.name := by
    intro e he
    rw [← hes] at he
    obtain ⟨item, hitem, rfl⟩ := List.mem_map.mp he
    refine hplain item.2.2 ?_
    rw [names_eq]
    exact List.mem_map_of_mem hitem
  -- the lines arrive as they were sent
  have hbox : (btStatusCallback (render ansiStatus es) w).btText = es.map (line ansiStatus) := by
    refine Delimited.getlines_terminated ?_
    rw [List.forall_mem_map]
    exact fun e he => not_mem_line (hnames e he) (by decide)
  have hfree : ∀ item ∈ (btStatusCallback (render ansiStatus es) w).btText,
      Markup.lt ∉ item ∧ Markup.ampersand ∉ item := by
    rw [hbox, List.forall_mem_map]
    intro e he
    exact ⟨not_mem_line (hnames e he) (by decide), not_mem_line (hnames e he) (by decide)⟩
  have hread : (es.map (line ansiStatus)).map faithfulText = es.map lineBytes := by
    rw [List.map_map]
    exact List.map_congr_left fun e he => faithfulText_line (hnames e he)
  rw [plainText_updateBtText E hfree, hbox, hread, displayedText_ascii]

end AutoScroll

end DrtBehavior
