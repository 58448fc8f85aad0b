import DrtBehavior.Base.Markup
import DrtBehavior.Visualization.RichText

/-!
# What the operator reads

The plain text of the HTML that `process_text` makes of a text, against the text itself.

* `faithfulText` — the text without its colour sequences, with tabs, bars and line ends as they
  are meant to be read.
* `NothingHidden` — no `<` of the text is taken for a tag and no `&` for a character reference.
* `plain_pieces` — the plain text is the faithful one or shorter, by induction on the pieces of
  the scan.
* `rendered_faithfully_iff` — it is the faithful one exactly when nothing is hidden: `process_text`
  does not escape what is special in HTML.
* `plainText_updateBtText` — the plain text of the tree's box, for lines without markup.
-/

set_option autoImplicit false

namespace DrtBehavior

namespace BehaviorTreeWidget

open Substitution Markup

/-! ## The text as it is meant -/

/-- The listed ANSI colour sequences. -/
def colourSequences : List StdString :=
  [green, bytes "\x1b[32m", red, bytes "\x1b[31m", blue, bytes "\x1b[34m", yellow,
    bytes "\x1b[33m", bytes "\x1b[36m", endColor]

/-- How the tokens are meant to be read. -/
def readings : List (Rule UInt8) :=
  colourSequences.map (fun s => ⟨s, []⟩) ++
    [⟨bytes "\t", bytes "  "⟩, ⟨bytes "│   ", bytes "|   "⟩, ⟨bytes "\n", bytes "\n"⟩,
      ⟨bytes "\r", bytes "\n"⟩]

def faithfulText (text : StdString) : StdString := replace readings text

/-- What becomes the end of a tag: a `>`, a colour sequence or a line end. -/
def EndsTag (text : StdString) : Prop :=
  gt ∈ text ∨ ∃ w ∈ colourSequences ++ [bytes "\n", bytes "\r"], w <:+: text

instance (text : StdString) : Decidable (EndsTag text) :=
  inferInstanceAs (Decidable (_ ∨ ∃ _ ∈ _, _))

/-- No `<` is followed, anywhere later, by what becomes the end of a tag, and no `&` starts a
    character reference. -/
def NothingHidden (E : Entities) : StdString → Prop
  | [] => True
  | c :: cs => (c = lt → ¬ EndsTag cs) ∧ (c = ampersand → E.reference cs = none) ∧
      NothingHidden E cs

/-! ## The table -/

/-- How a token of the table is meant to be read; four spaces are read as such. -/
def readingOf (token : StdString) : StdString :=
  ((readings.find? fun r => r.oldText = token).map Rule.newText).getD token

/-- What a piece is meant to be read as. -/
def pieceReading : Piece UInt8 → StdString
  | .token r => readingOf r.oldText
  | .copied c => [c]

theorem readings_proper : Proper readings := by decide

theorem readings_prefixFree : PrefixFree readings := by decide +kernel

theorem textReplacements_prefixFree : PrefixFree textReplacements := by decide +kernel

/-- The table has the tokens that are meant to be read otherwise, and four spaces. -/
theorem row_reading : ∀ r ∈ textReplacements, r.oldText = bytes "    " ∨
    ⟨r.oldText, readingOf r.oldText⟩ ∈ readings := by
  decide

theorem reading_row : ∀ r ∈ readings, ∃ r' ∈ textReplacements, r'.oldText = r.oldText := by
  decide

/-- A replacement with a `>` is a tag, whose text is the reading. -/
theorem row_tag : ∀ r ∈ textReplacements, gt ∈ r.newText →
    r.newText = lt :: (r.newText.tail.dropLast ++ [gt]) ∧ gt ∉ r.newText.tail.dropLast ∧
      tagText r.newText.tail.dropLast = readingOf r.oldText := by
  decide

/-- The other replacements. -/
theorem row_blank : ∀ r ∈ textReplacements, gt ∉ r.newText →
    r = ⟨bytes "\t", bytes "  "⟩ ∨ r = ⟨bytes "│   ", bytes "|&nbsp;&nbsp;&nbsp;"⟩ ∨
      r = ⟨bytes "    ", bytes "&nbsp;&nbsp;&nbsp;&nbsp;"⟩ := by
  decide

theorem row_old : ∀ r ∈ textReplacements, lt ∉ r.oldText ∧ gt ∉ r.oldText ∧
    ampersand ∉ r.oldText := by
  decide

theorem row_endsTag : ∀ r ∈ textReplacements, gt ∈ r.newText →
    r.oldText ∈ colourSequences ++ [bytes "\n", bytes "\r"] ∧
      ∀ y ∈ r.oldText.head?, StartsOnly textReplacements y := by
  decide +kernel

theorem endsTag_row : ∀ w ∈ colourSequences ++ [bytes "\n", bytes "\r"],
    ∃ r ∈ textReplacements, gt ∈ r.newText ∧ r.oldText = w := by
  decide

/-- A byte of a character reference behind its `&`. -/
def InReference (c : UInt8) : Prop := IsNameByte c ∨ c = semicolon

instance (c : UInt8) : Decidable (InReference c) := inferInstanceAs (Decidable (_ ∨ _))

theorem row_head : ∀ r ∈ textReplacements, (∀ y ∈ r.oldText.head?, ¬ InReference y) ∧
    ∃ y ∈ r.newText.head?, ¬ InReference y := by
  decide +kernel

/-! ## The scan as it is meant -/

theorem faithfulText_token {r : Rule UInt8} (hr : r ∈ textReplacements) (rest : StdString) :
    faithfulText (r.oldText ++ rest) = readingOf r.oldText ++ faithfulText rest := by
  rcases row_reading r hr with h | h
  · rw [h, show readingOf (bytes "    ") = bytes "    " by decide]
    exact replace_append_of_head_ne readings_proper _ rest (by decide +kernel)
  · exact replace_token readings_proper (firstMatch_of_prefixFree readings_prefixFree h rest)

theorem faithfulText_copied {c : UInt8} {cs : StdString}
    (h : firstMatch textReplacements (c :: cs) = none) :
    faithfulText (c :: cs) = c :: faithfulText cs := by
  refine replace_copied (firstMatch_none_iff.mpr fun r hr => ?_)
  obtain ⟨r', hr', hold⟩ := reading_row r hr
  rw [← hold]
  exact firstMatch_none_iff.mp h r' hr'

/-- The faithful text is what the pieces of the widget's scan are meant to be read as. -/
theorem faithfulText_eq (text : StdString) :
    faithfulText text = (pieces textReplacements text).flatMap pieceReading := by
  induction text using pieces_induction textReplacements_proper with
  | nil => rfl
  | token r rest hr hm ih =>
    rw [faithfulText_token hr, pieces_token textReplacements_proper hm, ih]
    rfl
  | copied c cs hm ih =>
    rw [faithfulText_copied hm, pieces_copied hm, ih]
    rfl

/-! ## The plain text of the pieces -/

variable {E : Entities}

/-- A replacement has the plain text its token is meant to be read as. -/
theorem plainText_row {r : Rule UInt8} (hr : r ∈ textReplacements) (rest : StdString) :
    plainText E (r.newText ++ rest) = readingOf r.oldText ++ plainText E rest := by
  by_cases hgt : gt ∈ r.newText
  · obtain ⟨hnew, hbody, htext⟩ := row_tag r hr hgt
    have h := plainText_tag (E := E) hbody rest
    rw [htext] at h
    rw [hnew, ← h]
    simp
  · have hcopy : ∀ (c : UInt8) (cs : StdString), c = 0x20 ∨ c = 0x7c →
        plainText E (c :: cs) = c :: plainText E cs := by
      intro c cs hc
      refine plainText_copied (fun h => ?_) (fun h => ?_)
      · subst h
        exact absurd hc (by decide)
      · subst h
        exact absurd hc (by decide)
    have hnbsp : ∀ cs : StdString, plainText E (bytes "&nbsp;" ++ cs) = 0x20 :: plainText E cs :=
      plainText_nbsp
    rcases row_blank r hr hgt with rfl | rfl | rfl
    · show plainText E (0x20 :: 0x20 :: rest) = _
      rw [hcopy _ _ (.inl rfl), hcopy _ _ (.inl rfl)]
      rfl
    · show plainText E (0x7c ::
        (bytes "&nbsp;" ++ (bytes "&nbsp;" ++ (bytes "&nbsp;" ++ rest)))) = _
      rw [hcopy _ _ (.inr rfl), hnbsp, hnbsp, hnbsp]
      rfl
    · show plainText E (bytes "&nbsp;" ++ (bytes "&nbsp;" ++ (bytes "&nbsp;" ++
        (bytes "&nbsp;" ++ rest)))) = _
      rw [hnbsp, hnbsp, hnbsp, hnbsp]
      rfl

/-- `NothingHidden` on the output of the scan. -/
def Shown (E : Entities) : List (Piece UInt8) → Prop
  | [] => True
  | .token _ :: ps => Shown E ps
  | .copied c :: ps => (c = lt → gt ∉ output ps) ∧
      (c = ampersand → E.reference (output ps) = none) ∧ Shown E ps

/-- What pieces are meant to be read as. -/
def reading (ps : List (Piece UInt8)) : StdString := ps.flatMap pieceReading

theorem reading_append (ps qs : List (Piece UInt8)) :
    reading (ps ++ qs) = reading ps ++ reading qs :=
  List.flatMap_append

theorem reading_copied (w : StdString) : reading (w.map .copied) = w := by
  induction w with
  | nil => rfl
  | cons c w ih => exact congrArg (c :: ·) ih

/-- All tokens are those of the table. -/
def FromTable (ps : List (Piece UInt8)) : Prop := ∀ r, .token r ∈ ps → r ∈ textReplacements

theorem FromTable.of_append {ps qs : List (Piece UInt8)} (h : FromTable (ps ++ qs)) :
    FromTable ps ∧ FromTable qs :=
  ⟨fun r hr => h r (List.mem_append_left qs hr), fun r hr => h r (List.mem_append_right ps hr)⟩

/-- Bytes of a reference at the start of the output were copied. -/
theorem exists_copied {ps : List (Piece UInt8)} (hps : FromTable ps) {w rest : StdString}
    (hw : ∀ c ∈ w, InReference c) (h : output ps = w ++ rest) :
    ∃ qs, ps = w.map .copied ++ qs ∧ output qs = rest := by
  refine exists_copied_of_output_eq (fun r hr => ?_) w ps rest hps hw h
  obtain ⟨y, hy, hbad⟩ := (row_head r hr).2
  obtain ⟨ys, hys⟩ := List.head?_eq_some_iff.mp hy
  exact ⟨y, ys, hys, hbad⟩

theorem inReference_of_decode {name d : StdString} (hd : E.decode name = some d) :
    ∀ c ∈ name ++ [semicolon], InReference c := by
  intro c hc
  rcases List.mem_append.mp hc with hc | hc
  · exact .inl (E.name_bytes name d hd c hc)
  · exact .inr (List.mem_singleton.mp hc)

/-- A `<` that is taken for a tag: the text of the tag is no longer than what it hides behind the
    `<`. -/
theorem hidden_tag {ps : List (Piece UInt8)} (hps : FromTable ps) (hgt : gt ∈ output ps) :
    ∃ qs rest, ps = qs ++ rest ∧ (plainText E (lt :: output ps)).length ≤
      (reading qs).length + (plainText E (output rest)).length := by
  have hlast : ∀ r ∈ textReplacements, gt ∈ r.newText →
      ∃ u, r.newText = u ++ [gt] ∧ gt ∉ u := by
    intro r hr h
    obtain ⟨hnew, hbody, _⟩ := row_tag r hr h
    refine ⟨lt :: r.newText.tail.dropLast, hnew, ?_⟩
    rw [List.mem_cons]
    exact not_or.mpr ⟨by decide, hbody⟩
  obtain ⟨qs, rest, u, rfl, hu, hn⟩ := exists_cut_of_mem_output hlast ps hps hgt
  refine ⟨qs, rest, rfl, ?_⟩
  -- only the tag `<br/>` has a text; then its letters were copied
  have hread : (tagText u).length ≤ (reading qs).length := by
    unfold tagText
    split
    · rename_i hbr
      rw [hbr] at hu
      have hcopied : ∀ c ∈ [(0x62 : UInt8)], InReference c := by decide +kernel
      obtain ⟨qs', rfl, _⟩ := exists_copied hps.of_append.1 hcopied
        (show output qs = [0x62] ++ [0x72, 0x2f, gt] from hu)
      rw [reading_append, reading_copied, List.length_append]
      exact Nat.le_add_right 1 _
    · exact Nat.zero_le _
  have hout : output (qs ++ rest) = u ++ gt :: output rest := by
    rw [output_append, hu, List.append_assoc]
    rfl
  rw [hout, plainText_tag hn, List.length_append]
  omega

/-- The same for a `&` that starts a character reference. -/
theorem hidden_reference {ps : List (Piece UInt8)} (hps : FromTable ps)
    (hr : E.reference (output ps) ≠ none) :
    ∃ qs rest, ps = qs ++ rest ∧ (plainText E (ampersand :: output ps)).length ≤
      (reading qs).length + (plainText E (output rest)).length := by
  obtain ⟨⟨name, d⟩, href⟩ := Option.ne_none_iff_exists'.mp hr
  obtain ⟨hd, rest, hout⟩ := reference_some href
  have hsplit : output ps = (name ++ [semicolon]) ++ rest := by
    rw [hout, List.append_assoc]
    rfl
  obtain ⟨qs, rfl, hqs⟩ := exists_copied hps (inReference_of_decode hd) hsplit
  refine ⟨(name ++ [semicolon]).map .copied, qs, rfl, ?_⟩
  have hshort := E.shorter name d hd
  rw [hout, plainText_reference hd, reading_copied, List.length_append, List.length_append, hqs,
    List.length_singleton]
  omega

/-- **Faithful or shorter.**  The plain text of the output is what the pieces are meant to be read
    as, or, where something is hidden, shorter. -/
theorem plain_pieces (E : Entities) (ps : List (Piece UInt8)) (hps : FromTable ps) :
    (Shown E ps ∧ plainText E (output ps) = reading ps) ∨
      (¬ Shown E ps ∧ (plainText E (output ps)).length < (reading ps).length) := by
  induction hn : ps.length using Nat.strong_induction_on generalizing ps with
  | _ n ih =>
    subst hn
    cases ps with
    | nil => exact .inl ⟨trivial, rfl⟩
    | cons p ps =>
      have htail : FromTable ps := fun r hr => hps r (List.mem_cons_of_mem p hr)
      have hps' := ih ps.length (Nat.lt_succ_self _) ps htail rfl
      cases p with
      | token r =>
        have hr : r ∈ textReplacements := hps r List.mem_cons_self
        have hplain : plainText E (output (.token r :: ps)) =
            readingOf r.oldText ++ plainText E (output ps) := plainText_row hr (output ps)
        have hread : reading (.token r :: ps) = readingOf r.oldText ++ reading ps := rfl
        rw [hplain, hread]
        rcases hps' with ⟨hshown, heq⟩ | ⟨hhidden, hlt⟩
        · exact .inl ⟨hshown, by rw [heq]⟩
        · refine .inr ⟨hhidden, ?_⟩
          rw [List.length_append, List.length_append]
          omega
      | copied c =>
        have hout : output (.copied c :: ps) = c :: output ps := rfl
        have hread : reading (.copied c :: ps) = c :: reading ps := rfl
        rw [hout, hread]
        by_cases hc : (c = lt → gt ∉ output ps) ∧ (c = ampersand → E.reference (output ps) = none)
        · rw [plainText_copied hc.1 hc.2]
          rcases hps' with ⟨hshown, heq⟩ | ⟨hhidden, hlt⟩
          · exact .inl ⟨⟨hc.1, hc.2, hshown⟩, by rw [heq]⟩
          · refine .inr ⟨fun h => hhidden h.2.2, ?_⟩
            rw [List.length_cons, List.length_cons]
            omega
        · -- the `<` or `&` takes some pieces with it
          have hhidden : ∃ qs rest, ps = qs ++ rest ∧ (plainText E (c :: output ps)).length ≤
              (reading qs).length + (plainText E (output rest)).length := by
            rcases not_and_or.mp hc with hc | hc
            · obtain ⟨rfl, hgt⟩ := Classical.not_imp.mp hc
              exact hidden_tag htail (not_not.mp hgt)
            · obtain ⟨rfl, href⟩ := Classical.not_imp.mp hc
              exact hidden_reference htail href
          obtain ⟨qs, rest, rfl, hle⟩ := hhidden
          refine .inr ⟨fun h => hc ⟨h.1, h.2.1⟩, ?_⟩
          have hrest : (plainText E (output rest)).length ≤ (reading rest).length := by
            have hlen : rest.length < (Piece.copied c :: (qs ++ rest)).length := by
              rw [List.length_cons, List.length_append]
              omega
            rcases ih rest.length hlen rest htail.of_append.2 rfl with
              ⟨_, heq⟩ | ⟨_, hlt⟩
            · exact Nat.le_of_eq (congrArg List.length heq)
            · exact Nat.le_of_lt hlt
          rw [reading_append, List.length_cons, List.length_append]
          omega

/-! ## What is hidden, in the text -/

theorem gt_mem_output_iff (text : StdString) :
    gt ∈ output (pieces textReplacements text) ↔ EndsTag text := by
  have h := mem_replace_iff textReplacements_proper textReplacements_prefixFree
    (fun r hr => (row_old r hr).2.1) (fun r hr hgt => (row_endsTag r hr hgt).2) text
  refine h.trans (or_congr_right ?_)
  constructor
  · rintro ⟨r, hr, hgt, hin⟩
    exact ⟨r.oldText, (row_endsTag r hr hgt).1, hin⟩
  · rintro ⟨w, hw, hin⟩
    obtain ⟨r, hr, hgt, rfl⟩ := endsTag_row w hw
    exact ⟨r, hr, hgt, hin⟩

/-- A reference in the output was one in the text, and the other way round: no token reaches into
    it. -/
theorem reference_output_iff (text : StdString) :
    E.reference (output (pieces textReplacements text)) = none ↔ E.reference text = none := by
  have hmem : FromTable (pieces textReplacements text) := fun r hr =>
    mem_rules_of_token textReplacements_proper text hr
  refine not_iff_not.mp ⟨fun h => ?_, fun h => ?_⟩
  · obtain ⟨⟨name, d⟩, href⟩ := Option.ne_none_iff_exists'.mp h
    obtain ⟨hd, rest, hout⟩ := reference_some href
    have hsplit : output (pieces textReplacements text) = (name ++ [semicolon]) ++ rest := by
      rw [hout, List.append_assoc]
      rfl
    obtain ⟨qs, hqs, _⟩ := exists_copied hmem (inReference_of_decode hd) hsplit
    have htext : text = name ++ semicolon :: source qs := by
      have hcopied : source ((name ++ [semicolon]).map .copied) = name ++ [semicolon] :=
        source_copied _
      rw [← source_pieces textReplacements_proper text, hqs, source_append, hcopied,
        List.append_assoc]
      rfl
    rw [htext, reference_append hd]
    exact Option.some_ne_none _
  · obtain ⟨⟨name, d⟩, href⟩ := Option.ne_none_iff_exists'.mp h
    obtain ⟨hd, rest, rfl⟩ := reference_some href
    have hhead : ∀ c ∈ name ++ [semicolon], ∀ r ∈ textReplacements, r.oldText.head? ≠ some c :=
      fun c hc r hr he => (row_head r hr).1 c he (inReference_of_decode hd c hc)
    have hout := replace_append_of_head_ne textReplacements_proper _ rest hhead
    rw [List.append_assoc, List.append_assoc] at hout
    rw [show output (pieces textReplacements (name ++ semicolon :: rest)) =
      name ++ semicolon :: replace textReplacements rest from hout, reference_append hd]
    exact Option.some_ne_none _

theorem nothingHidden_append {a : StdString} (hlt : lt ∉ a) (hamp : ampersand ∉ a)
    (rest : StdString) : NothingHidden E (a ++ rest) ↔ NothingHidden E rest := by
  induction a with
  | nil => rfl
  | cons c a ih =>
    have hc : c ≠ lt := fun h => hlt (h ▸ List.mem_cons_self)
    have hc' : c ≠ ampersand := fun h => hamp (h ▸ List.mem_cons_self)
    have hrest := ih (fun h => hlt (List.mem_cons_of_mem c h))
      fun h => hamp (List.mem_cons_of_mem c h)
    rw [List.cons_append, NothingHidden, hrest]
    exact ⟨fun h => h.2.2, fun h => ⟨fun he => absurd he hc, fun he => absurd he hc', h⟩⟩

theorem shown_pieces_iff (text : StdString) :
    Shown E (pieces textReplacements text) ↔ NothingHidden E text := by
  induction text using pieces_induction textReplacements_proper with
  | nil => rfl
  | token r rest hr hm ih =>
    rw [pieces_token textReplacements_proper hm,
      nothingHidden_append (row_old r hr).1 (row_old r hr).2.2]
    exact ih
  | copied c cs hm ih =>
    rw [pieces_copied hm, Shown, NothingHidden, ih, gt_mem_output_iff, reference_output_iff]

theorem plainText_processText_iff (E : Entities) (text : StdString) :
    plainText E (processText text) = faithfulText text ↔ NothingHidden E text := by
  rw [processText_eq, faithfulText_eq, ← shown_pieces_iff]
  rcases plain_pieces E (pieces textReplacements text)
      (fun r hr => mem_rules_of_token textReplacements_proper text hr) with
    ⟨hshown, heq⟩ | ⟨hhidden, hlt⟩
  · exact iff_of_true heq hshown
  · refine iff_of_false (fun heq => ?_) hhidden
    have hlen := congrArg List.length heq
    exact absurd hlen (Nat.ne_of_lt hlt)

/-! ## Texts without markup -/

/-- Where no `<` and no `&` is copied, what follows does not matter. -/
theorem plainText_output_append (E : Entities) {ps : List (Piece UInt8)} (hps : FromTable ps)
    (hlt : .copied lt ∉ ps) (hamp : .copied ampersand ∉ ps) (rest : StdString) :
    plainText E (output ps ++ rest) = reading ps ++ plainText E rest := by
  induction ps with
  | nil => rfl
  | cons p ps ih =>
    have htail := ih (fun r hr => hps r (List.mem_cons_of_mem p hr))
      (fun hm => hlt (List.mem_cons_of_mem p hm)) (fun hm => hamp (List.mem_cons_of_mem p hm))
    cases p with
    | token r =>
      have hr : r ∈ textReplacements := hps r List.mem_cons_self
      have hplain := plainText_row (E := E) hr (output ps ++ rest)
      rw [htail, ← List.append_assoc, ← List.append_assoc] at hplain
      exact hplain
    | copied c =>
      have hc : c ≠ lt := fun he => hlt (he ▸ List.mem_cons_self)
      have hc' : c ≠ ampersand := fun he => hamp (he ▸ List.mem_cons_self)
      have hplain : plainText E (c :: (output ps ++ rest)) = c :: plainText E (output ps ++ rest) :=
        plainText_copied (fun he => absurd he hc) (fun he => absurd he hc')
      rw [htail] at hplain
      exact hplain

theorem plainText_processText_append (E : Entities) {text : StdString} (hlt : lt ∉ text)
    (hamp : ampersand ∉ text) (rest : StdString) :
    plainText E (processText text ++ rest) = faithfulText text ++ plainText E rest := by
  rw [processText_eq, faithfulText_eq]
  refine plainText_output_append E
    (fun r hr => mem_rules_of_token textReplacements_proper text hr) ?_ ?_ rest
  · rw [copied_mem_pieces_iff textReplacements_proper fun r hr => (row_old r hr).1]
    exact hlt
  · rw [copied_mem_pieces_iff textReplacements_proper fun r hr => (row_old r hr).2.2]
    exact hamp

/-- Lines that are joined by `<br/>`. -/
theorem plainText_lines (E : Entities) (rest : StdString) : ∀ {lines : List StdString},
    (∀ line ∈ lines, lt ∉ line ∧ ampersand ∉ line) →
      plainText E ((bytes "<br/>").intercalate (lines.map processText) ++ rest) =
        (bytes "\n").intercalate (lines.map faithfulText) ++ plainText E rest
  | [], _ => rfl
  | [line], h => by
    obtain ⟨hlt, hamp⟩ := h line List.mem_cons_self
    simpa using plainText_processText_append E hlt hamp rest
  | line :: next :: lines, h => by
    have hnext := plainText_lines E rest fun l hl => h l (List.mem_cons_of_mem line hl)
    have hbr : ∀ rest, plainText E (bytes "<br/>" ++ rest) = bytes "\n" ++ plainText E rest :=
      plainText_tag (show gt ∉ bytes "br/" by decide)
    obtain ⟨hlt, hamp⟩ := h line List.mem_cons_self
    rw [List.map_cons, List.map_cons] at hnext
    simp only [List.map_cons, List.intercalate_cons_cons, List.append_assoc]
    rw [plainText_processText_append E hlt hamp, hbr, hnext]

/-- **The plain text of the tree's box**: its lines as they are meant, where none has a `<` or a
    `&`. -/
theorem plainText_updateBtText (E : Entities) {w : BehaviorTreeWidget}
    (h : ∀ line ∈ w.btText, lt ∉ line ∧ ampersand ∉ line) :
    plainText E (updateBtText w) = (bytes "\n").intercalate (w.btText.map faithfulText) := by
  have hpre : ∀ rest, plainText E (bytes "<pre>" ++ rest) = plainText E rest :=
    plainText_tag (show gt ∉ bytes "pre" by decide)
  have hend : plainText E (bytes "</pre>") = [] :=
    plainText_tag (show gt ∉ bytes "/pre" by decide) []
  rw [updateBtText, joinProcessed_eq, List.append_assoc, hpre, plainText_lines E _ h, hend,
    List.append_nil]

/-- **Exactly which texts are rendered faithfully.**  For every set of character references and
    every text, the plain text of what `process_text` makes of it is the text as it is meant if and
    only if no `<` is followed later by a `>`, a colour sequence or a line end and no `&` starts a
    character reference.  The HTML of the two text boxes is that of their lines, joined by
    `<br/>`. -/
theorem rendered_faithfully_iff (E : Entities) (text : StdString) (w : BehaviorTreeWidget) :
    (plainText E (processText text) = faithfulText text ↔ NothingHidden E text) ∧
      updateBtText w = bytes "<pre>" ++
        (bytes "<br/>").intercalate (w.btText.map processText) ++ bytes "</pre>" ∧
      updateLogText w = bytes "<pre style='white-space: pre-wrap;'>" ++
        (bytes "<br/>").intercalate (w.log.map processText) ++ bytes "</pre>" := by
  refine ⟨plainText_processText_iff E text, ?_, ?_⟩
  · rw [updateBtText, joinProcessed_eq]
  · rw [updateLogText, joinProcessed_eq]

/-- A few character references. -/
def basicTable : List (StdString × StdString) :=
  [(bytes "nbsp", bytes " "), (bytes "lt", bytes "<"), (bytes "gt", bytes ">"),
    (bytes "amp", bytes "&"), (bytes "quot", bytes "\"")]

def basicEntities : Entities where
  decode name := (basicTable.find? fun entry => entry.1 = name).map Prod.snd
  name_bytes := by
    intro name text h
    obtain ⟨entry, hf, _⟩ := Option.map_eq_some_iff.mp h
    have hfound := List.find?_some hf
    have hname : entry.1 = name := of_decide_eq_true hfound
    have hall : ∀ entry ∈ basicTable, ∀ c ∈ entry.1, IsNameByte c := by decide +kernel
    exact hname ▸ hall entry (List.mem_of_find?_eq_some hf)
  shorter := by
    intro name text h
    obtain ⟨entry, hf, rfl⟩ := Option.map_eq_some_iff.mp h
    have hfound := List.find?_some hf
    have hname : entry.1 = name := of_decide_eq_true hfound
    have hall : ∀ entry ∈ basicTable, entry.2.length < entry.1.length + 2 := by decide
    exact hname ▸ hall entry (List.mem_of_find?_eq_some hf)
  nbsp := by decide

/-- The argument of a template type is taken for a tag. -/
theorem template_argument_hidden :
    plainText basicEntities (processText (bytes "bad std::vector<double>")) =
        bytes "bad std::vector" ∧
      faithfulText (bytes "bad std::vector<double>") = bytes "bad std::vector<double>" ∧
      ¬ ∀ (E : Entities) (text : StdString),
        plainText E (processText text) = faithfulText text := by
  refine ⟨by decide +kernel, by decide +kernel, fun h => ?_⟩
  have hfaithful := h basicEntities (bytes "bad std::vector<double>")
  exact absurd hfaithful (by decide +kernel)

end BehaviorTreeWidget

end DrtBehavior
