import Conform.Text
import Conform.Text.Blank
import Mathlib.Data.List.DropRight
import Mathlib.Data.List.Infix

/-! Texts that are cut. Cut at a character, the pieces have nothing of it left, and what is around it makes no
difference; and whatever blanks stand around a text, stripping it gives the same. -/
namespace Conform

namespace Point

variable {p : Point} {c : Char}

/-- Only for NUL does the character leave the point open. -/
theorem eq_ofChar (h : p.char = c) (hSome : c.toNat ≠ 0) : p = ofChar c := by
  subst h
  by_cases hValid : p.val.isValidChar
  · have hChar : p.char = Char.ofNatAux p.val hValid := dif_pos hValid
    rw [hChar]
    rfl
  · have hNul : p.char.toNat = 0 := congrArg Char.toNat (dif_neg hValid)
    exact absurd hNul hSome

end Point

namespace Text

variable {sep : Char} {t u before inside : Text} {p : Point}

theorem dropStart?_eq_some_iff {start : Text} : dropStart? t start = some u ↔ t = start ++ u := by
  unfold dropStart?
  split
  · next hStart =>
      rw [Option.some.injEq, ← List.prefix_iff_eq_append.mp (List.isPrefixOf_iff_prefix.mp hStart)]
      simp
  · next hStart =>
      refine ⟨nofun, fun hText => absurd ?_ hStart⟩
      exact List.isPrefixOf_iff_prefix.mpr ⟨u, hText.symm⟩

/-- What a text is cut into is found in it, the first piece at its start. -/
theorem prefix_of_splitOn (sep : Char) (t : Text) : ∃ first rest, splitOn sep t = first :: rest ∧
    first <+: t ∧ ∀ piece ∈ rest, piece <:+: t := by
  induction t with
  | nil => exact ⟨[], [], rfl, List.prefix_rfl, nofun⟩
  | cons p t ih =>
      obtain ⟨first, rest, hSplit, hFirst, hRest⟩ := ih
      have hLonger : ∀ piece : Text, piece <:+: t → piece <:+: p :: t := fun piece hInside =>
        hInside.trans (List.suffix_cons p t).isInfix
      rw [splitOn, hSplit]
      split
      · refine ⟨[], first :: rest, rfl, List.nil_prefix, List.forall_mem_cons.mpr ⟨?_, ?_⟩⟩
        · exact hLonger first hFirst.isInfix
        · exact fun piece hMem => hLonger piece (hRest piece hMem)
      · refine ⟨p :: first, rest, rfl, List.cons_prefix_cons.mpr ⟨rfl, hFirst⟩, ?_⟩
        exact fun piece hMem => hLonger piece (hRest piece hMem)

theorem infix_of_mem_splitOn (h : u ∈ splitOn sep t) : u <:+: t := by
  obtain ⟨first, rest, hSplit, hFirst, hRest⟩ := prefix_of_splitOn sep t
  rw [hSplit] at h
  rcases List.mem_cons.mp h with rfl | hMem
  · exact hFirst.isInfix
  · exact hRest u hMem

/-- A separator cuts a text whatever stands around it. -/
theorem splitOn_append (hSep : p.char = sep) (t u : Text) :
    splitOn sep (t ++ p :: u) = splitOn sep t ++ splitOn sep u := by
  induction t with
  | nil => simp [splitOn, hSep]
  | cons q t ih =>
      rw [List.cons_append, splitOn, splitOn, ih]
      split
      · rfl
      · obtain ⟨first, rest, hSplit, -⟩ := prefix_of_splitOn sep t
        rw [hSplit]
        rfl

theorem splitOn_of_free (h : ∀ q ∈ t, q.char ≠ sep) : splitOn sep t = [t] := by
  induction t with
  | nil => rfl
  | cons q t ih =>
      obtain ⟨hHere, hRest⟩ := List.forall_mem_cons.mp h
      rw [splitOn, ih hRest, if_neg (by simpa using hHere)]

/-- No piece has a separator in it. -/
theorem free_of_mem_splitOn (h : u ∈ splitOn sep t) : ∀ q ∈ u, q.char ≠ sep := by
  induction t generalizing u with
  | nil =>
      obtain rfl : u = [] := by simpa [splitOn] using h
      exact nofun
  | cons q t ih =>
      rw [splitOn] at h
      split at h
      · rcases List.mem_cons.mp h with rfl | hLater
        · exact nofun
        · exact ih hLater
      · next hOther =>
          obtain ⟨first, rest, hSplit, -⟩ := prefix_of_splitOn sep t
          rw [hSplit] at h ih
          rcases List.mem_cons.mp h with rfl | hLater
          · exact List.forall_mem_cons.mpr ⟨by simpa using hOther, ih List.mem_cons_self⟩
          · exact ih (List.mem_cons_of_mem _ hLater)

/-- The first separator is the one with none before it. -/
theorem cut?_eq_some_iff : cut? sep t = some (before, inside) ↔
    ∃ p, p.char = sep ∧ t = before ++ p :: inside ∧ ∀ q ∈ before, q.char ≠ sep := by
  induction t generalizing before with
  | nil => simp [cut?]
  | cons q rest ih =>
      rw [cut?]
      split
      · next hHere =>
          have hChar : q.char = sep := by simpa using hHere
          constructor
          · rintro ⟨⟩
            exact ⟨q, hChar, rfl, nofun⟩
          · rintro ⟨p, hSep, hText, hFirst⟩
            cases before with
            | nil =>
                obtain ⟨rfl, rfl⟩ := List.cons.inj hText
                rfl
            | cons r before =>
                obtain ⟨rfl, -⟩ := List.cons.inj hText
                exact absurd hChar (hFirst q List.mem_cons_self)
      · next hOther =>
          have hChar : q.char ≠ sep := by simpa using hOther
          constructor
          · intro h
            obtain ⟨⟨start, rest'⟩, hCut, hSame⟩ := Option.map_eq_some_iff.mp h
            obtain ⟨rfl, rfl⟩ := Prod.mk.inj hSame
            obtain ⟨p, hSep, rfl, hFirst⟩ := ih.mp hCut
            exact ⟨p, hSep, rfl, List.forall_mem_cons.mpr ⟨hChar, hFirst⟩⟩
          · rintro ⟨p, hSep, hText, hFirst⟩
            cases before with
            | nil =>
                obtain ⟨rfl, -⟩ := List.cons.inj hText
                exact absurd hSep hChar
            | cons r before =>
                obtain ⟨rfl, hRest⟩ := List.cons.inj hText
                rw [ih.mpr ⟨p, hSep, hRest, (List.forall_mem_cons.mp hFirst).2⟩]
                rfl

/-- The last separator is in the second part if there is one, else it is the one between the parts. -/
theorem cutLast?_append (hSep : p.char = sep) (t u : Text) : cutLast? sep (t ++ p :: u) =
    some ((cutLast? sep u).elim (t, u) fun parts => (t ++ p :: parts.1, parts.2)) := by
  induction t with
  | nil =>
      rw [List.nil_append, cutLast?]
      cases cutLast? sep u <;> simp [hSep]
  | cons q t ih =>
      rw [List.cons_append, cutLast?, ih]
      cases cutLast? sep u <;> rfl

theorem cutLast?_of_free (h : ∀ q ∈ t, q.char ≠ sep) : cutLast? sep t = none := by
  induction t with
  | nil => rfl
  | cons q t ih =>
      obtain ⟨hFirst, hRest⟩ := List.forall_mem_cons.mp h
      rw [cutLast?, ih hRest]
      exact if_neg (by simpa using hFirst)

end Text
end Conform

/-! ### Texts without blanks at their ends -/

namespace Conform.Text

variable {t u before after : Text}

/-- Whether a text has no blanks at its ends. -/
def IsTrimmed (t : Text) : Prop := t.strip = t

instance : DecidablePred IsTrimmed := fun t => inferInstanceAs (Decidable (t.strip = t))

theorem strip_eq (t : Text) : t.strip = (t.dropWhile Point.isBlank).rdropWhile Point.isBlank := rfl

/-- A text is stripped of blanks and of nothing else. -/
theorem exists_blanks (t : Text) : ∃ before after, t = before ++ t.strip ++ after ∧
    (∀ p ∈ before, p.isBlank = true) ∧ ∀ p ∈ after, p.isBlank = true := by
  refine ⟨t.takeWhile Point.isBlank, (t.dropWhile Point.isBlank).rtakeWhile Point.isBlank, ?_, ?_, ?_⟩
  · rw [strip_eq, List.append_assoc, List.rdropWhile_append_rtakeWhile, List.takeWhile_append_dropWhile]
  · exact fun p hMem => List.mem_takeWhile_imp hMem
  · exact fun p hMem => List.mem_rtakeWhile_imp hMem

theorem dropWhile_blanks (hBefore : ∀ p ∈ before, p.isBlank = true) (t : Text) :
    (before ++ t).dropWhile Point.isBlank = t.dropWhile Point.isBlank := by
  rw [List.dropWhile_append, List.dropWhile_eq_nil_iff.mpr hBefore]
  rfl

theorem rdropWhile_blanks (hAfter : ∀ p ∈ after, p.isBlank = true) (t : Text) :
    (t ++ after).rdropWhile Point.isBlank = t.rdropWhile Point.isBlank := by
  have hReverse : ∀ p ∈ after.reverse, p.isBlank = true := fun p hMem => hAfter p (List.mem_reverse.mp hMem)
  rw [List.rdropWhile, List.reverse_append, dropWhile_blanks hReverse]
  rfl

/-- Blanks around a text make no difference to what it is stripped to. -/
theorem strip_blanks (hBefore : ∀ p ∈ before, p.isBlank = true) (hAfter : ∀ p ∈ after, p.isBlank = true)
    (t : Text) : strip (before ++ t ++ after) = strip t := by
  rw [strip_eq, strip_eq, List.append_assoc, dropWhile_blanks hBefore, List.dropWhile_append]
  split
  · next hBlank =>
      rw [List.isEmpty_iff.mp hBlank, List.dropWhile_eq_nil_iff.mpr hAfter]
  · exact rdropWhile_blanks hAfter _

/-- Nothing is left of a text of blanks alone. -/
theorem strip_eq_nil_iff : t.strip = [] ↔ ∀ p ∈ t, p.isBlank = true := by
  constructor
  · intro h
    obtain ⟨before, after, hText, hBefore, hAfter⟩ := exists_blanks t
    rw [h, List.append_nil] at hText
    simpa [hText, or_imp, forall_and] using ⟨hBefore, hAfter⟩
  · intro h
    have hNone : ∀ p ∈ ([] : Text), p.isBlank = true := nofun
    have hStrip := strip_blanks h hNone []
    rwa [List.append_nil, List.append_nil] at hStrip

/-- What a text is stripped to has no blanks at its ends. -/
theorem isTrimmed_strip (t : Text) : IsTrimmed t.strip := by
  obtain ⟨before, after, hText, hBefore, hAfter⟩ := exists_blanks t
  have hStrip := strip_blanks hBefore hAfter t.strip
  rw [← hText] at hStrip
  exact hStrip.symm

/-- A text has no blanks at its ends if neither its first point nor its last is one. -/
theorem isTrimmed_iff :
    IsTrimmed t ↔ (∀ p ∈ t.head?, p.isBlank = false) ∧ ∀ p ∈ t.getLast?, p.isBlank = false := by
  have hFirst : t.dropWhile Point.isBlank = t ↔ ∀ p ∈ t.head?, p.isBlank = false := by
    cases t with
    | nil => simp
    | cons p rest => simp [List.dropWhile_eq_self_iff]
  have hLast : t.rdropWhile Point.isBlank = t ↔ ∀ p ∈ t.getLast?, p.isBlank = false := by
    rw [List.rdropWhile_eq_self_iff]
    constructor
    · intro h p hMem
      obtain ⟨hSome, rfl⟩ := List.mem_getLast?_eq_getLast hMem
      simpa using h hSome
    · intro h hSome
      simpa using h _ (List.getLast?_eq_some_getLast hSome)
  rw [← hFirst, ← hLast, IsTrimmed, strip_eq]
  constructor
  · intro h
    have hLong := (List.rdropWhile_prefix Point.isBlank (t.dropWhile Point.isBlank)).length_le
    rw [h] at hLong
    have hShort := le_antisymm (List.dropWhile_suffix Point.isBlank).length_le hLong
    have hNone := (List.dropWhile_suffix _).eq_of_length hShort
    exact ⟨hNone, by rwa [hNone] at h⟩
  · rintro ⟨hNone, h⟩
    rwa [hNone]

end Conform.Text
