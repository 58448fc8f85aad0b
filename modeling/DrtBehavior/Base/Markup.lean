import Mathlib.Data.List.Basic

/-!
# The plain text of a markup fragment

What a reader sees of a text with tags `<...>` and character references `&...;`, over bytes.

* `Entities` — the character references of a markup language.
* `plainText` — tags are dropped, the tag `<br/>` is a newline, references are decoded; a `<` no
  `>` follows and a `&` that starts no reference stand for themselves.
* `plainText_tag`, `plainText_reference`, `plainText_copied` — one rule for each.
* `plainText_closing` — which tag closes a text does not matter.
-/

set_option autoImplicit false

namespace Markup

/-! ## The text up to a byte -/

/-- The part of a text in front of the first `stop`. -/
def upTo (stop : UInt8) : List UInt8 → Option (List UInt8)
  | [] => none
  | c :: cs => if c = stop then some [] else (upTo stop cs).map (c :: ·)

theorem upTo_append {stop : UInt8} :
    ∀ {body : List UInt8} (rest : List UInt8), stop ∉ body →
      upTo stop (body ++ stop :: rest) = some body
  | [], _, _ => by simp [upTo]
  | c :: body, rest, h => by
    have hc : c ≠ stop := fun he => h (he ▸ List.mem_cons_self)
    have hb : stop ∉ body := fun hm => h (List.mem_cons_of_mem c hm)
    rw [List.cons_append, upTo, if_neg hc, upTo_append rest hb]
    rfl

theorem upTo_some {stop : UInt8} :
    ∀ {text body : List UInt8}, upTo stop text = some body →
      stop ∉ body ∧ ∃ rest, text = body ++ stop :: rest
  | [], _, h => by cases h
  | c :: cs, body, h => by
    unfold upTo at h
    split at h
    · rename_i hc
      cases h
      exact ⟨List.not_mem_nil, cs, by rw [hc]; rfl⟩
    · rename_i hc
      obtain ⟨body', hb, rfl⟩ := Option.map_eq_some_iff.mp h
      obtain ⟨hn, rest, rfl⟩ := upTo_some hb
      refine ⟨?_, rest, rfl⟩
      rw [List.mem_cons]
      exact not_or.mpr ⟨fun he => hc he.symm, hn⟩

theorem upTo_of_not_mem {stop : UInt8} {text : List UInt8} (h : stop ∉ text) :
    upTo stop text = none := by
  cases hu : upTo stop text with
  | none => rfl
  | some body =>
    obtain ⟨_, rest, rfl⟩ := upTo_some hu
    exact absurd (by simp) h

/-! ## Character references -/

def lt : UInt8 := 0x3c
def gt : UInt8 := 0x3e
def ampersand : UInt8 := 0x26
def semicolon : UInt8 := 0x3b
def newline : UInt8 := 0x0a

/-- A letter, a digit or `#`. -/
def IsNameByte (c : UInt8) : Prop :=
  (0x30 ≤ c ∧ c ≤ 0x39) ∨ (0x41 ≤ c ∧ c ≤ 0x5a) ∨ (0x61 ≤ c ∧ c ≤ 0x7a) ∨ c = 0x23

instance (c : UInt8) : Decidable (IsNameByte c) :=
  inferInstanceAs (Decidable (_ ∨ _ ∨ _ ∨ _))

/-- The character references of a language: what stands between `&` and `;`, and its text, which
    is shorter than the reference; `&nbsp;` is read as a space. -/
structure Entities where
  decode : List UInt8 → Option (List UInt8)
  name_bytes : ∀ name text, decode name = some text → ∀ c ∈ name, IsNameByte c
  shorter : ∀ name text, decode name = some text → text.length < name.length + 2
  nbsp : decode [0x6e, 0x62, 0x73, 0x70] = some [0x20]

/-- The reference behind a `&`: its name and its text. -/
def Entities.reference (E : Entities) (text : List UInt8) : Option (List UInt8 × List UInt8) :=
  (upTo semicolon text).bind fun name => (E.decode name).map fun d => (name, d)

/-! ## The plain text -/

/-- The text of a tag: a newline for `<br/>`. -/
def tagText (body : List UInt8) : List UInt8 :=
  if body = [0x62, 0x72, 0x2f] then [newline] else []

/-- The plain text behind the next `k` bytes, which belong to a tag or a reference. -/
def plainFrom (E : Entities) : Nat → List UInt8 → List UInt8
  | _, [] => []
  | k + 1, _ :: cs => plainFrom E k cs
  | 0, c :: cs =>
    if c = lt then
      match upTo gt cs with
      | some body => tagText body ++ plainFrom E (body.length + 1) cs
      | none => c :: plainFrom E 0 cs
    else if c = ampersand then
      match E.reference cs with
      | some (name, d) => d ++ plainFrom E (name.length + 1) cs
      | none => c :: plainFrom E 0 cs
    else c :: plainFrom E 0 cs

def plainText (E : Entities) (text : List UInt8) : List UInt8 := plainFrom E 0 text

variable {E : Entities}

theorem plainFrom_skip :
    ∀ (body : List UInt8) (c : UInt8) (rest : List UInt8),
      plainFrom E (body.length + 1) (body ++ c :: rest) = plainText E rest
  | [], _, _ => rfl
  | _ :: body, c, rest => plainFrom_skip body c rest

@[simp] theorem plainText_nil : plainText E [] = [] := rfl

theorem plainText_tag {body : List UInt8} (h : gt ∉ body) (rest : List UInt8) :
    plainText E (lt :: (body ++ gt :: rest)) = tagText body ++ plainText E rest := by
  rw [plainText, plainFrom, if_pos rfl, upTo_append rest h]
  simp only [plainFrom_skip]

theorem reference_append {name d : List UInt8} (h : E.decode name = some d) (rest : List UInt8) :
    E.reference (name ++ semicolon :: rest) = some (name, d) := by
  have hn : semicolon ∉ name := fun hm => absurd (E.name_bytes name d h semicolon hm) (by decide)
  rw [Entities.reference, upTo_append rest hn, Option.bind_some, h]
  rfl

theorem reference_some {text name d : List UInt8} (h : E.reference text = some (name, d)) :
    E.decode name = some d ∧ ∃ rest, text = name ++ semicolon :: rest := by
  obtain ⟨name', hu, h⟩ := Option.bind_eq_some_iff.mp h
  obtain ⟨d', hd, h⟩ := Option.map_eq_some_iff.mp h
  cases h
  exact ⟨hd, (upTo_some hu).2⟩

theorem plainText_reference {name d : List UInt8} (h : E.decode name = some d)
    (rest : List UInt8) :
    plainText E (ampersand :: (name ++ semicolon :: rest)) = d ++ plainText E rest := by
  rw [plainText, plainFrom, if_neg (by decide), if_pos rfl, reference_append h rest]
  simp only [plainFrom_skip]

/-- A byte that starts neither a tag nor a reference stands for itself. -/
theorem plainText_copied {c : UInt8} {cs : List UInt8} (ht : c = lt → gt ∉ cs)
    (hr : c = ampersand → E.reference cs = none) :
    plainText E (c :: cs) = c :: plainText E cs := by
  rw [plainText, plainFrom]
  split
  · rename_i hc
    rw [upTo_of_not_mem (ht hc)]
    rfl
  · split
    · rename_i hc
      rw [hr hc]
      rfl
    · rfl

theorem plainText_nbsp (rest : List UInt8) :
    plainText E ([0x26, 0x6e, 0x62, 0x73, 0x70, 0x3b] ++ rest) = 0x20 :: plainText E rest :=
  plainText_reference E.nbsp rest

/-! ## What stands behind a text -/

theorem upTo_append_of_mem {stop : UInt8} {text : List UInt8} (h : stop ∈ text)
    (rest : List UInt8) : upTo stop (text ++ rest) = upTo stop text := by
  obtain ⟨body, more, rfl, hn⟩ := List.eq_append_cons_of_mem h
  rw [upTo_append more hn, List.append_assoc, List.cons_append, upTo_append _ hn]

/-- No reference reaches over a byte that stands in none. -/
theorem reference_append_cons {x : UInt8} (hx : ¬ IsNameByte x) (hsemi : x ≠ semicolon)
    (text rest : List UInt8) : E.reference (text ++ x :: rest) = E.reference text := by
  by_cases hmem : semicolon ∈ text
  · rw [Entities.reference, upTo_append_of_mem hmem, Entities.reference]
  · have hnone : E.reference text = none := by
      rw [Entities.reference, upTo_of_not_mem hmem, Option.bind_none]
    rw [hnone]
    refine Option.eq_none_iff_forall_not_mem.mpr fun ⟨name, d⟩ href => ?_
    obtain ⟨hd, more, hsplit⟩ := reference_some href
    -- the first semicolon is behind `x`, so `x` would belong to the name
    have hname : x ∈ name := by
      rcases List.append_eq_append_iff.mp hsplit with ⟨between, rfl, hrest⟩ | ⟨between, rfl, hrest⟩
      · cases between with
        | nil => exact absurd (List.cons.inj hrest).1 hsemi
        | cons y ys =>
          rw [(List.cons.inj hrest).1]
          simp
      · cases between with
        | nil => exact absurd (List.cons.inj hrest).1.symm hsemi
        | cons y ys =>
          rw [← (List.cons.inj hrest).1] at hmem
          simp at hmem
    exact hx (E.name_bytes name d hd x hname)

/-- A tag at the end of a text, with a body that is not that of `<br/>`. -/
theorem plainFrom_closing {b b' : List UInt8} (hb : gt ∉ b) (hb' : gt ∉ b')
    (hbr : tagText b = [] ∧ tagText b' = []) :
    ∀ (text : List UInt8) (k : Nat), k ≤ text.length →
      plainFrom E k (text ++ lt :: (b ++ [gt])) = plainFrom E k (text ++ lt :: (b' ++ [gt]))
  | [], k, hk => by
    obtain rfl : k = 0 := Nat.le_zero.mp hk
    have h := plainText_tag (E := E) hb []
    have h' := plainText_tag (E := E) hb' []
    rw [hbr.1] at h
    rw [hbr.2] at h'
    exact h.trans h'.symm
  | _ :: cs, k + 1, hk => plainFrom_closing hb hb' hbr cs k (Nat.le_of_succ_le_succ hk)
  | c :: cs, 0, _ => by
    have hrest := plainFrom_closing hb hb' hbr cs 0 (Nat.zero_le _)
    simp only [List.cons_append, plainFrom]
    split
    · by_cases hgt : gt ∈ cs
      · obtain ⟨body, more, rfl, hn⟩ := List.eq_append_cons_of_mem hgt
        have hlen : body.length + 1 ≤ (body ++ gt :: more).length := by
          rw [List.length_append, List.length_cons]
          omega
        have hskip := plainFrom_closing hb hb' hbr (body ++ gt :: more) (body.length + 1) hlen
        rw [upTo_append_of_mem hgt, upTo_append_of_mem hgt, upTo_append more hn]
        simp only [hskip]
      · -- the closing tag is part of the tag that starts here
        have htag : ∀ {body : List UInt8}, gt ∉ body → upTo gt (cs ++ lt :: (body ++ [gt])) =
            some (cs ++ lt :: body) ∧ tagText (cs ++ lt :: body) = [] ∧
            plainFrom E ((cs ++ lt :: body).length + 1) (cs ++ lt :: (body ++ [gt])) = [] := by
          intro body hbody
          have hassoc : cs ++ lt :: (body ++ [gt]) = (cs ++ lt :: body) ++ gt :: [] := by simp
          have hn : gt ∉ cs ++ lt :: body := by
            simp only [List.mem_append, List.mem_cons, not_or]
            exact ⟨hgt, by decide, hbody⟩
          refine ⟨by rw [hassoc, upTo_append [] hn], if_neg fun heq => ?_, ?_⟩
          · have hlt : lt ∈ ([0x62, 0x72, 0x2f] : List UInt8) := by
              rw [← heq]
              simp
            exact absurd hlt (by decide)
          · rw [hassoc, plainFrom_skip]
            rfl
        obtain ⟨hu, ht, hp⟩ := htag hb
        obtain ⟨hu', ht', hp'⟩ := htag hb'
        simp only [hu, hu', ht, ht', hp, hp']
    · split
      · have hname : ¬ IsNameByte lt := by decide
        rw [reference_append_cons hname (by decide), reference_append_cons hname (by decide)]
        cases href : E.reference cs with
        | none => simp only [hrest]
        | some found =>
          obtain ⟨name, d⟩ := found
          obtain ⟨_, more, rfl⟩ := reference_some href
          have hlen : name.length + 1 ≤ (name ++ semicolon :: more).length := by
            rw [List.length_append, List.length_cons]
            omega
          simp only [plainFrom_closing hb hb' hbr _ _ hlen]
      · simp only [hrest]

/-- **Which tag closes a text does not matter.** -/
theorem plainText_closing (b b' : List UInt8) (hb : gt ∉ b) (hb' : gt ∉ b')
    (hbr : tagText b = [] ∧ tagText b' = []) (text : List UInt8) :
    plainText E (text ++ lt :: (b ++ [gt])) = plainText E (text ++ lt :: (b' ++ [gt])) :=
  plainFrom_closing hb hb' hbr text 0 (Nat.zero_le _)

/-! ## Texts without references -/

/-- No `&` of the text starts a character reference. -/
def NoReference (E : Entities) : List UInt8 → Prop
  | [] => True
  | c :: cs => (c = ampersand → E.reference cs = none) ∧ NoReference E cs

theorem noReference_append_cons {x : UInt8} (hx : ¬ IsNameByte x) (hsemi : x ≠ semicolon)
    (hamp : x ≠ ampersand) (text rest : List UInt8) :
    NoReference E (text ++ x :: rest) ↔ NoReference E text ∧ NoReference E rest := by
  induction text with
  | nil =>
    rw [List.nil_append, NoReference]
    exact ⟨fun h => ⟨trivial, h.2⟩, fun h => ⟨fun he => absurd he hamp, h.2⟩⟩
  | cons c cs ih =>
    rw [List.cons_append, NoReference, NoReference, reference_append_cons hx hsemi, ih, and_assoc]

end Markup
