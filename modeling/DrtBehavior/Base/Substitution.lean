import Mathlib.Data.List.Find
import Mathlib.Data.List.Infix

/-!
# Replacing tokens in a text

A table of rules, each with a token and the text that replaces it, applied by one scan from left
to right: at each position the first rule whose token starts there is used and the scan goes on
behind the token; where no token starts, one symbol is copied.

* `pieces` — the text cut into matched tokens and copied symbols; `source_pieces` — nothing of it
  is lost or used twice.
* `replace` — the scan; `pieces_induction` — the induction it suggests.
* `pieces_append_cons` — a symbol inside no token after its first place cuts the scan in two.
* `token_mem_pieces_iff`, `mem_replace_iff` — which tokens are matched, what the output contains.
* `pieces_congr_mem` — where no token starts another one, the order of the rules does not matter.
-/

set_option autoImplicit false

namespace Substitution

variable {α : Type*}

structure Rule (α : Type*) where
  oldText : List α
  newText : List α
  deriving DecidableEq, Repr

/-- A part of the text: a token that was matched, or a symbol that was copied. -/
inductive Piece (α : Type*) where
  | token (rule : Rule α)
  | copied (c : α)
  deriving DecidableEq, Repr

def Piece.source : Piece α → List α
  | .token r => r.oldText
  | .copied c => [c]

def Piece.output : Piece α → List α
  | .token r => r.newText
  | .copied c => [c]

/-- The text that pieces were cut from. -/
def source (ps : List (Piece α)) : List α := ps.flatMap Piece.source

def output (ps : List (Piece α)) : List α := ps.flatMap Piece.output

theorem source_append (ps qs : List (Piece α)) : source (ps ++ qs) = source ps ++ source qs :=
  List.flatMap_append

theorem output_append (ps qs : List (Piece α)) : output (ps ++ qs) = output ps ++ output qs :=
  List.flatMap_append

theorem source_copied (w : List α) : source (w.map .copied) = w := by
  induction w with
  | nil => rfl
  | cons c w ih => exact congrArg (c :: ·) ih

theorem output_copied (w : List α) : output (w.map .copied) = w := by
  induction w with
  | nil => rfl
  | cons c w ih => exact congrArg (c :: ·) ih

theorem mem_source_of_mem {ps : List (Piece α)} {p : Piece α} (hp : p ∈ ps) {x : α}
    (hx : x ∈ p.source) : x ∈ source ps :=
  List.mem_flatMap.mpr ⟨p, hp, hx⟩

variable [DecidableEq α]

/-- The first rule whose token the text starts with. -/
def firstMatch (rules : List (Rule α)) (text : List α) : Option (Rule α) :=
  rules.find? fun r => r.oldText.isPrefixOf text

/-- The scan, with the number of symbols that belong to the last token still to be skipped. -/
def piecesFrom (rules : List (Rule α)) : Nat → List α → List (Piece α)
  | _, [] => []
  | k + 1, _ :: cs => piecesFrom rules k cs
  | 0, c :: cs =>
    match firstMatch rules (c :: cs) with
    | some r => .token r :: piecesFrom rules (r.oldText.length - 1) cs
    | none => .copied c :: piecesFrom rules 0 cs

def pieces (rules : List (Rule α)) (text : List α) : List (Piece α) := piecesFrom rules 0 text

def replace (rules : List (Rule α)) (text : List α) : List α := output (pieces rules text)

/-- No token is empty. -/
def Proper (rules : List (Rule α)) : Prop := ∀ r ∈ rules, r.oldText ≠ []

instance (rules : List (Rule α)) : Decidable (Proper rules) :=
  inferInstanceAs (Decidable (∀ r ∈ rules, r.oldText ≠ []))

variable {rules : List (Rule α)} {text : List α}

/-! ## One step of the scan -/

theorem firstMatch_some {r : Rule α} (h : firstMatch rules text = some r) :
    r ∈ rules ∧ ∃ rest, text = r.oldText ++ rest := by
  refine ⟨List.mem_of_find?_eq_some h, ?_⟩
  have hp := List.find?_some h
  obtain ⟨rest, hr⟩ := List.isPrefixOf_iff_prefix.mp hp
  exact ⟨rest, hr.symm⟩

theorem firstMatch_none_iff :
    firstMatch rules text = none ↔ ∀ r ∈ rules, ¬ r.oldText <+: text := by
  simp [firstMatch, List.isPrefixOf_iff_prefix]

theorem piecesFrom_skip (rules : List (Rule α)) :
    ∀ (k : Nat) (text : List α), piecesFrom rules k text = pieces rules (text.drop k)
  | 0, _ => rfl
  | k + 1, [] => rfl
  | k + 1, c :: cs => by
    rw [piecesFrom, piecesFrom_skip rules k cs, List.drop_succ_cons]

@[simp] theorem pieces_nil : pieces rules [] = [] := rfl

theorem pieces_token (hp : Proper rules) {r : Rule α} {rest : List α}
    (h : firstMatch rules (r.oldText ++ rest) = some r) :
    pieces rules (r.oldText ++ rest) = .token r :: pieces rules rest := by
  have hne := hp r (firstMatch_some h).1
  cases hold : r.oldText with
  | nil => exact absurd hold hne
  | cons c cs =>
    rw [hold] at h
    simp only [List.cons_append] at h ⊢
    rw [pieces, piecesFrom, h]
    simp only [hold, List.length_cons, Nat.add_sub_cancel]
    rw [piecesFrom_skip, List.drop_left]

theorem pieces_copied {c : α} {cs : List α} (h : firstMatch rules (c :: cs) = none) :
    pieces rules (c :: cs) = .copied c :: pieces rules cs := by
  rw [pieces, piecesFrom, h]
  rfl

theorem replace_token (hp : Proper rules) {r : Rule α} {rest : List α}
    (h : firstMatch rules (r.oldText ++ rest) = some r) :
    replace rules (r.oldText ++ rest) = r.newText ++ replace rules rest := by
  rw [replace, pieces_token hp h]
  rfl

theorem replace_copied {c : α} {cs : List α} (h : firstMatch rules (c :: cs) = none) :
    replace rules (c :: cs) = c :: replace rules cs := by
  rw [replace, pieces_copied h]
  rfl

/-- Symbols no token starts with are copied. -/
theorem replace_append_of_head_ne (hp : Proper rules) :
    ∀ (w rest : List α), (∀ x ∈ w, ∀ r ∈ rules, r.oldText.head? ≠ some x) →
      replace rules (w ++ rest) = w ++ replace rules rest
  | [], _, _ => rfl
  | x :: w, rest, h => by
    have hnone : firstMatch rules (x :: (w ++ rest)) = none := by
      refine firstMatch_none_iff.mpr fun r hr hpre => ?_
      cases hold : r.oldText with
      | nil => exact hp r hr hold
      | cons y ys =>
        rw [hold] at hpre
        have hne := h x List.mem_cons_self r hr
        rw [hold, (List.cons_prefix_cons.mp hpre).1] at hne
        exact hne rfl
    rw [List.cons_append, replace_copied hnone,
      replace_append_of_head_ne hp w rest fun y hy => h y (List.mem_cons_of_mem x hy)]
    rfl

/-- **Induction along the scan.** -/
theorem pieces_induction (hp : Proper rules) {P : List α → Prop} (nil : P [])
    (token : ∀ r rest, r ∈ rules → firstMatch rules (r.oldText ++ rest) = some r → P rest →
      P (r.oldText ++ rest))
    (copied : ∀ c cs, firstMatch rules (c :: cs) = none → P cs → P (c :: cs)) :
    ∀ text, P text := by
  intro text
  induction hn : text.length using Nat.strong_induction_on generalizing text with
  | _ n ih =>
    subst hn
    cases text with
    | nil => exact nil
    | cons c cs =>
      cases hm : firstMatch rules (c :: cs) with
      | none => exact copied c cs hm (ih cs.length (by simp) cs rfl)
      | some r =>
        obtain ⟨hr, rest, hrest⟩ := firstMatch_some hm
        have hpos : 0 < r.oldText.length := List.length_pos_of_ne_nil (hp r hr)
        rw [hrest] at hm ⊢
        refine token r rest hr hm (ih rest.length ?_ rest rfl)
        rw [hrest, List.length_append]
        omega

/-- **The scan consumes every symbol exactly once.** -/
theorem source_pieces (hp : Proper rules) (text : List α) : source (pieces rules text) = text := by
  induction text using pieces_induction hp with
  | nil => rfl
  | token r rest _ hm ih =>
    rw [pieces_token hp hm]
    exact congrArg (r.oldText ++ ·) ih
  | copied c cs hm ih =>
    rw [pieces_copied hm]
    exact congrArg (c :: ·) ih

theorem mem_rules_of_token {r : Rule α} (hp : Proper rules) (text : List α)
    (h : .token r ∈ pieces rules text) : r ∈ rules := by
  induction text using pieces_induction hp with
  | nil => cases h
  | token r' rest hr' hm ih =>
    rw [pieces_token hp hm] at h
    rcases List.mem_cons.mp h with h | h
    · cases h
      exact hr'
    · exact ih h
  | copied c cs hm ih =>
    rw [pieces_copied hm] at h
    rcases List.mem_cons.mp h with h | h
    · cases h
    · exact ih h

/-! ## Cutting the scan -/

/-- A symbol that no token has after its first place. -/
def StartsOnly (rules : List (Rule α)) (x : α) : Prop := ∀ r ∈ rules, x ∉ r.oldText.tail

instance (rules : List (Rule α)) (x : α) : Decidable (StartsOnly rules x) :=
  inferInstanceAs (Decidable (∀ r ∈ rules, x ∉ r.oldText.tail))

/-- In front of a symbol that only starts tokens, the symbols behind it do not matter. -/
theorem firstMatch_append_cons {x : α} (hx : StartsOnly rules x) {a : List α} (ha : a ≠ [])
    (rest : List α) : firstMatch rules (a ++ x :: rest) = firstMatch rules a := by
  have hiff : ∀ r ∈ rules, r.oldText <+: a ++ x :: rest ↔ r.oldText <+: a := by
    intro r hr
    constructor
    · intro h
      rcases Nat.lt_or_ge a.length r.oldText.length with hlt | hge
      · -- the token would reach over the symbol
        obtain ⟨b, hb⟩ := List.prefix_of_prefix_length_le (List.prefix_append a _) h (by omega)
        rw [← hb, List.prefix_append_right_inj] at h
        obtain ⟨a₀, a', rfl⟩ := List.exists_cons_of_ne_nil ha
        cases b with
        | nil =>
          rw [← hb] at hlt
          simp at hlt
        | cons y b =>
          obtain rfl := (List.cons_prefix_cons.mp h).1
          refine absurd ?_ (hx r hr)
          rw [← hb]
          simp
      · exact List.prefix_of_prefix_length_le h (List.prefix_append a _) hge
    · intro h
      exact h.trans (List.prefix_append a _)
  unfold firstMatch
  refine List.find?_congr fun r hr => ?_
  rw [Bool.eq_iff_iff, List.isPrefixOf_iff_prefix, List.isPrefixOf_iff_prefix]
  exact hiff r hr

theorem pieces_append_cons (hp : Proper rules) {x : α} (hx : StartsOnly rules x) (a rest : List α) :
    pieces rules (a ++ x :: rest) = pieces rules a ++ pieces rules (x :: rest) := by
  induction a using pieces_induction hp with
  | nil => rfl
  | token r a hr hm ih =>
    have hne : r.oldText ++ a ≠ [] := List.append_ne_nil_of_left_ne_nil (hp r hr) a
    have hm' := firstMatch_append_cons hx hne rest
    rw [hm, List.append_assoc] at hm'
    rw [List.append_assoc, pieces_token hp hm', pieces_token hp hm, ih]
    rfl
  | copied c a hm ih =>
    have hm' := firstMatch_append_cons hx (List.cons_ne_nil c a) rest
    rw [hm] at hm'
    rw [List.cons_append] at hm'
    rw [pieces_copied hm, List.cons_append, List.cons_append, pieces_copied hm', ih]

/-! ## What the scan finds -/

/-- No token is the beginning of another one. -/
def PrefixFree (rules : List (Rule α)) : Prop :=
  ∀ r ∈ rules, ∀ r' ∈ rules, r.oldText <+: r'.oldText → r = r'

instance (rules : List (Rule α)) : Decidable (PrefixFree rules) :=
  inferInstanceAs (Decidable (∀ r ∈ rules, ∀ r' ∈ rules, _ → r = r'))

/-- Where tokens are prefix-free, the token the text starts with is the one that is matched. -/
theorem firstMatch_of_prefixFree (hf : PrefixFree rules) {r : Rule α} (hr : r ∈ rules)
    (rest : List α) : firstMatch rules (r.oldText ++ rest) = some r := by
  cases hm : firstMatch rules (r.oldText ++ rest) with
  | none => exact absurd (List.prefix_append _ _) (firstMatch_none_iff.mp hm r hr)
  | some r' =>
    obtain ⟨hr', rest', h⟩ := firstMatch_some hm
    have hpre' : r'.oldText <+: r.oldText ++ rest := by
      rw [h]
      exact List.prefix_append _ _
    rcases List.prefix_or_prefix_of_prefix (List.prefix_append _ rest) hpre' with hle | hle
    · rw [hf r hr r' hr' hle]
    · rw [hf r' hr' r hr hle]

/-! ## The order of the rules -/

/-- Two prefix-free tables with the same rules match the same token. -/
theorem firstMatch_congr_mem {rules' : List (Rule α)} (hf : PrefixFree rules)
    (hmem : ∀ r, r ∈ rules' ↔ r ∈ rules) (text : List α) :
    firstMatch rules' text = firstMatch rules text := by
  have hf' : PrefixFree rules' := fun r hr r' hr' =>
    hf r ((hmem r).mp hr) r' ((hmem r').mp hr')
  cases hm : firstMatch rules text with
  | some r =>
    obtain ⟨hr, rest, rfl⟩ := firstMatch_some hm
    exact firstMatch_of_prefixFree hf' ((hmem r).mpr hr) rest
  | none =>
    refine firstMatch_none_iff.mpr fun r hr => ?_
    exact firstMatch_none_iff.mp hm r ((hmem r).mp hr)

omit [DecidableEq α] in
theorem Proper.congr_mem {rules' : List (Rule α)} (hp : Proper rules)
    (hmem : ∀ r, r ∈ rules' ↔ r ∈ rules) : Proper rules' := fun r hr => hp r ((hmem r).mp hr)

/-- **The scan does not depend on the order of a prefix-free table.** -/
theorem pieces_congr_mem {rules' : List (Rule α)} (hp : Proper rules) (hf : PrefixFree rules)
    (hmem : ∀ r, r ∈ rules' ↔ r ∈ rules) (text : List α) :
    pieces rules' text = pieces rules text := by
  have hp' : Proper rules' := hp.congr_mem hmem
  induction text using pieces_induction hp with
  | nil => rfl
  | token r rest hr hm ih =>
    have hm' := firstMatch_congr_mem hf hmem (r.oldText ++ rest)
    rw [pieces_token hp hm, pieces_token hp' (hm'.trans hm), ih]
  | copied c cs hm ih =>
    have hm' := firstMatch_congr_mem hf hmem (c :: cs)
    rw [pieces_copied hm, pieces_copied (hm'.trans hm), ih]

/-- A symbol that is in no token is copied wherever it stands. -/
theorem copied_mem_pieces_iff (hp : Proper rules) {x : α} (hx : ∀ r ∈ rules, x ∉ r.oldText)
    (text : List α) : .copied x ∈ pieces rules text ↔ x ∈ text := by
  induction text using pieces_induction hp with
  | nil => simp
  | token r rest hr hm ih => simp [pieces_token hp hm, ih, hx r hr]
  | copied c cs hm ih => simp [pieces_copied hm, ih]

/-- A token whose first symbol only starts tokens is matched wherever it stands. -/
theorem token_mem_pieces_iff (hp : Proper rules) (hf : PrefixFree rules) {r : Rule α}
    (hr : r ∈ rules) (hstart : ∀ x ∈ r.oldText.head?, StartsOnly rules x) (text : List α) :
    .token r ∈ pieces rules text ↔ r.oldText <:+: text := by
  constructor
  · intro h
    obtain ⟨before, after, hps⟩ := List.append_of_mem h
    have htext := source_pieces hp text
    rw [hps] at htext
    refine ⟨source before, source after, ?_⟩
    simpa [source, Piece.source] using htext
  · rintro ⟨a, b, rfl⟩
    have hmatch := pieces_token hp (firstMatch_of_prefixFree hf hr b)
    cases hold : r.oldText with
    | nil => exact absurd hold (hp r hr)
    | cons x old =>
      have hx : StartsOnly rules x := hstart x (by rw [hold]; rfl)
      rw [hold] at hmatch
      rw [List.append_assoc, List.cons_append, pieces_append_cons hp hx, ← List.cons_append, hmatch]
      simp

/-- A token whose first symbol only starts tokens is replaced wherever it stands, and what is in
    front of it as if nothing followed. -/
theorem replace_append_token (hp : Proper rules) (hf : PrefixFree rules) {r : Rule α}
    (hr : r ∈ rules) (hstart : ∀ x ∈ r.oldText.head?, StartsOnly rules x) (a rest : List α) :
    replace rules (a ++ (r.oldText ++ rest)) =
      replace rules a ++ (r.newText ++ replace rules rest) := by
  have htoken := replace_token hp (firstMatch_of_prefixFree hf hr rest)
  cases hold : r.oldText with
  | nil => exact absurd hold (hp r hr)
  | cons x old =>
    have hx : StartsOnly rules x := hstart x (by rw [hold]; rfl)
    rw [hold, List.cons_append] at htoken
    rw [← htoken, List.cons_append, replace, pieces_append_cons hp hx, output_append]
    rfl

/-- A symbol that is in no token is in the output because it is in the text, or because a token
    whose replacement contains it is. -/
theorem mem_replace_iff (hp : Proper rules) (hf : PrefixFree rules) {x : α}
    (hx : ∀ r ∈ rules, x ∉ r.oldText)
    (hstart : ∀ r ∈ rules, x ∈ r.newText → ∀ y ∈ r.oldText.head?, StartsOnly rules y)
    (text : List α) :
    x ∈ replace rules text ↔ x ∈ text ∨ ∃ r ∈ rules, x ∈ r.newText ∧ r.oldText <:+: text := by
  rw [← copied_mem_pieces_iff hp hx text]
  constructor
  · intro h
    obtain ⟨p, hps, hxp⟩ := List.mem_flatMap.mp h
    cases p with
    | copied c =>
      obtain rfl := List.mem_singleton.mp hxp
      exact .inl hps
    | token r =>
      have hr := mem_rules_of_token hp text hps
      exact .inr ⟨r, hr, hxp, (token_mem_pieces_iff hp hf hr (hstart r hr hxp) text).mp hps⟩
  · intro h
    refine List.mem_flatMap.mpr ?_
    rcases h with h | ⟨r, hr, hxr, hin⟩
    · exact ⟨.copied x, h, List.mem_singleton_self x⟩
    · exact ⟨.token r, (token_mem_pieces_iff hp hf hr (hstart r hr hxr) text).mpr hin, hxr⟩

omit [DecidableEq α] in
/-- Where replacements have the symbol `stop` only in the last place, the output up to the first
    `stop` is the output of some of the pieces. -/
theorem exists_cut_of_mem_output {stop : α}
    (hlast : ∀ r ∈ rules, stop ∈ r.newText → ∃ u, r.newText = u ++ [stop] ∧ stop ∉ u) :
    ∀ (ps : List (Piece α)), (∀ r, .token r ∈ ps → r ∈ rules) → stop ∈ output ps →
      ∃ qs rest u, ps = qs ++ rest ∧ output qs = u ++ [stop] ∧ stop ∉ u
  | [], _, h => by cases h
  | p :: ps, hmem, h => by
    by_cases hstop : stop ∈ p.output
    · obtain ⟨u, hu, hn⟩ : ∃ u, p.output = u ++ [stop] ∧ stop ∉ u := by
        cases p with
        | copied c => exact ⟨[], by rw [List.mem_singleton.mp hstop]; rfl, List.not_mem_nil⟩
        | token r => exact hlast r (hmem r List.mem_cons_self) hstop
      exact ⟨[p], ps, u, rfl, by simpa [output] using hu, hn⟩
    · have h' : stop ∈ output ps := by
        rcases List.mem_append.mp (show stop ∈ p.output ++ output ps from h) with h | h
        · exact absurd h hstop
        · exact h
      obtain ⟨qs, rest, u, rfl, hu, hn⟩ := exists_cut_of_mem_output hlast ps
        (fun r hr => hmem r (List.mem_cons_of_mem _ hr)) h'
      refine ⟨p :: qs, rest, p.output ++ u, rfl, ?_, ?_⟩
      · rw [List.append_assoc, ← hu]
        rfl
      · rw [List.mem_append]
        exact not_or.mpr ⟨hstop, hn⟩

omit [DecidableEq α] in
/-- Where the output starts with symbols no replacement starts with, these were copied. -/
theorem exists_copied_of_output_eq {ok : α → Prop}
    (hhead : ∀ r ∈ rules, ∃ y ys, r.newText = y :: ys ∧ ¬ ok y) :
    ∀ (w : List α) (ps : List (Piece α)) (rest : List α), (∀ r, .token r ∈ ps → r ∈ rules) →
      (∀ y ∈ w, ok y) → output ps = w ++ rest →
      ∃ qs, ps = w.map .copied ++ qs ∧ output qs = rest
  | [], ps, rest, _, _, h => ⟨ps, rfl, h⟩
  | y :: w, [], rest, _, _, h => by cases h
  | y :: w, p :: ps, rest, hmem, hok, h => by
    have h' : p.output ++ output ps = y :: w ++ rest := h
    cases p with
    | token r =>
      obtain ⟨z, zs, hz, hbad⟩ := hhead r (hmem r List.mem_cons_self)
      rw [show Piece.output (.token r) = z :: zs from hz] at h'
      obtain rfl := (List.cons.inj h').1
      exact absurd (hok z List.mem_cons_self) hbad
    | copied c =>
      obtain ⟨rfl, ht⟩ := List.cons.inj h'
      obtain ⟨qs, rfl, hqs⟩ := exists_copied_of_output_eq hhead w ps rest
        (fun r hr => hmem r (List.mem_cons_of_mem _ hr))
        (fun x hx => hok x (List.mem_cons_of_mem _ hx)) ht
      exact ⟨qs, rfl, hqs⟩

end Substitution
