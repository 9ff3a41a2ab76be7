import Mathlib.Data.List.Basic

/-!
# Words behind separators

A list of words becomes a text in which a separator stands before each word. If the separator
occurs in no word, the text tells the words, and the prefixes of the list are those prefixes of
the text that end where a word ends.
-/

namespace Separated

variable {α : Type} {sep : α}

/-- The text of a list of words. -/
def render (sep : α) (words : List (List α)) : List α := words.flatMap fun word => sep :: word

/-- No words are the empty string. -/
@[simp] theorem render_nil (sep : α) : render sep [] = [] := rfl

/-- A word follows its separator. -/
@[simp] theorem render_cons (sep : α) (word : List α) (words : List (List α)) :
    render sep (word :: words) = sep :: (word ++ render sep words) := rfl

/-- Two lists of words, one after the other. -/
@[simp] theorem render_append (sep : α) (words words' : List (List α)) :
    render sep (words ++ words') = render sep words ++ render sep words' := List.flatMap_append

/-- Only the empty list of words is the empty string. -/
theorem render_eq_nil {words : List (List α)} : render sep words = [] ↔ words = [] := by
  cases words <;> simp

/-- A text and a separator start with a separator. -/
theorem render_append_sep (sep : α) (words : List (List α)) :
    ∃ rest, render sep words ++ [sep] = sep :: rest := by
  cases words with
  | nil => exact ⟨[], rfl⟩
  | cons word words => exact ⟨_, rfl⟩

section Words

variable {word word' x y : List α} {words words' : List (List α)}

/-- What is before the first separator is a word. -/
theorem word_prefix_iff (h : sep ∉ word) (h' : sep ∉ word') :
    word ++ sep :: x <+: word' ++ sep :: y ↔ word = word' ∧ x <+: y := by
  induction word generalizing word' with
  | nil =>
    cases word' with
    | nil => simp
    | cons c rest =>
      have hne : sep ≠ c := fun heq => h' (heq ▸ List.mem_cons_self ..)
      simp [List.cons_prefix_cons, hne]
  | cons c rest ih =>
    cases word' with
    | nil =>
      have hne : c ≠ sep := fun heq => h (heq ▸ List.mem_cons_self ..)
      simp [List.cons_prefix_cons, hne]
    | cons c' rest' =>
      rw [List.mem_cons, not_or] at h h'
      rw [List.cons_append, List.cons_append, List.cons_prefix_cons, ih h.2 h'.2, List.cons.injEq,
        and_assoc]

/-- The text of a prefix of the words is a prefix of their text, up to the next separator. -/
theorem render_prefix_iff (h : ∀ word ∈ words, sep ∉ word) (h' : ∀ word ∈ words', sep ∉ word) :
    render sep words ++ [sep] <+: render sep words' ++ [sep] ↔ words <+: words' := by
  induction words generalizing words' with
  | nil =>
    obtain ⟨rest, hrest⟩ := render_append_sep sep words'
    rw [hrest]
    simp
  | cons word words ih =>
    cases words' with
    | nil =>
      refine iff_of_false (fun hp => ?_) (by simp)
      have hle := hp.length_le
      simp at hle
    | cons word' words' =>
      rw [List.forall_mem_cons] at h h'
      obtain ⟨rest, hrest⟩ := render_append_sep sep words
      obtain ⟨rest', hrest'⟩ := render_append_sep sep words'
      have htail := ih h.2 h'.2
      rw [hrest, hrest', List.cons_prefix_cons] at htail
      rw [render_cons, render_cons, List.cons_append, List.cons_append, List.cons_prefix_cons,
        List.append_assoc, List.append_assoc, hrest, hrest', word_prefix_iff h.1 h'.1,
        List.cons_prefix_cons, ← htail]
      simp

/-- A separator before the text is not one behind it. -/
theorem cons_render_ne (hne : words ≠ []) (h : ∀ word ∈ words, sep ∉ word)
    (hwords : [] ∉ words) : sep :: render sep words ≠ render sep words ++ [sep] := by
  obtain ⟨word, words, rfl⟩ := List.exists_cons_of_ne_nil hne
  obtain ⟨c, rest, rfl⟩ : ∃ c rest, word = c :: rest :=
    List.exists_cons_of_ne_nil fun hnil => hwords (hnil ▸ List.mem_cons_self ..)
  intro heq
  rw [render_cons, List.cons_append] at heq
  -- The second character is a separator on the left, and that of the first word on the right.
  obtain ⟨-, htail⟩ := List.cons.inj heq
  obtain ⟨hc, -⟩ := List.cons.inj htail
  exact h (c :: rest) (List.mem_cons_self ..) (hc ▸ List.mem_cons_self ..)

/-- The text tells the words. -/
theorem render_inj (h : ∀ word ∈ words, sep ∉ word) (h' : ∀ word ∈ words', sep ∉ word) :
    render sep words = render sep words' ↔ words = words' := by
  constructor
  · intro heq
    have hpre := (render_prefix_iff h h').mp (heq ▸ List.prefix_refl _)
    have hpre' := (render_prefix_iff h' h).mp (heq ▸ List.prefix_refl _)
    exact hpre.eq_of_length_le hpre'.length_le
  · rintro rfl
    rfl

/-- The text of words that are not empty does not end with a separator. -/
theorem render_getLast?_ne (h : ∀ word ∈ words, sep ∉ word) (hwords : [] ∉ words) :
    (render sep words).getLast? ≠ some sep := by
  intro hlast
  rcases List.eq_nil_or_concat words with rfl | ⟨init, word, hconcat⟩
  · simp at hlast
  · rw [List.concat_eq_append] at hconcat
    subst hconcat
    have hne : word ≠ [] := fun hnil =>
      hwords (hnil ▸ List.mem_append_right _ (List.mem_cons_self ..))
    have hword : sep ∉ word := h word (List.mem_append_right _ (List.mem_cons_self ..))
    rw [render_append, render_cons, render_nil, List.append_nil,
      List.getLast?_append_of_ne_nil _ (List.cons_ne_nil _ _), List.getLast?_cons,
      List.getLast?_eq_some_getLast hne, Option.getD_some, Option.some.injEq] at hlast
    exact hword (hlast ▸ List.getLast_mem hne)

end Words

end Separated
